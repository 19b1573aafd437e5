import Smpl.Rust.Name
import Smpl.Types.Basic

namespace Smpl

/-- Whether Rust copies the values of a type on every read. -/
def Ty.isCopy : Ty → Bool
  | .primitive type => type = .int || type = .float || type = .bool || type = .unit
  | .function _ _ | .reference _ => true
  | .array element _ => element.isCopy
  | .struct _ | .opaqueType _ _ | .param _ => false

namespace Rust

/-- Where Rust text is written: the program's prelude, the module, and the names that hide items of
    the module. -/
structure Setting where
  prelude : Option String
  moduleName : String
  shadowed : List String
deriving Repr, Inhabited

/-- The Rust path of an item. -/
def Setting.itemPath (setting : Setting) (name : ItemName) : String :=
  if name.moduleName = setting.moduleName then
    if setting.shadowed.contains name.name then "self::" ++ identifier name.name
    else identifier name.name
  else "super::" ++ identifier name.moduleName ++ "::" ++ identifier name.name

def primitiveText : Primitive → Except Failure String
  | .int => .ok "i64"
  | .float => .ok "f64"
  | .bool => .ok "bool"
  | .string => .ok "String"
  | .unit => .ok "()"
  | .other name => .error (.defect (.missingKey (some name)))

mutual

/-- A type as Rust text. Of the opaque types only the prelude's `Option` has one. -/
def Setting.type (setting : Setting) (loc : Option Location) : Ty → Except Failure String
  | .primitive type => primitiveText type
  | .struct name => .ok (setting.itemPath name)
  | .param param => .ok (identifier param.name)
  | .array element length => do
    let element ← setting.type loc element
    return "[" ++ element ++ "; " ++ toString length ++ "]"
  | .function params result => do
    let params ← setting.types loc params
    let text := "fn(" ++ ", ".intercalate params ++ ")"
    if result = .unit then return text
    else
      let result ← setting.type loc result
      return text ++ " -> " ++ result
  | .reference target => do
    let target ← setting.type loc target
    return "&" ++ target
  | .opaqueType name args =>
    if some name.moduleName = setting.prelude ∧ name.name = "Option" then
      match args with
      | [] => .error (.defect .missingTypeArgument)
      | arg :: _ => do
        let arg ← setting.type loc arg
        return "Option<" ++ arg ++ ">"
    else
      cannotLower (.opaqueType (Ty.opaqueType name args).text) loc
        (some "only the prelude's Option has a Rust equivalent")

def Setting.types (setting : Setting) (loc : Option Location) : List Ty → Except Failure (List String)
  | [] => return []
  | type :: types => do
    let type ← setting.type loc type
    let types ← setting.types loc types
    return type :: types

end

end Rust

end Smpl
