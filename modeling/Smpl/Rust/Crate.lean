import Smpl.Rust.Containment
import Smpl.Rust.Stmt
import Smpl.Typed.Program

namespace Smpl.Rust

/-- Checks the names of an item and of what it declares. -/
def checkItemNames (item : TypedItem) : Except Failure Unit := do
  checkName "item" item.name item.loc
  match item with
  | .struct _ _ fields => fields.forM fun field => checkSpelling "field" field.name field.loc
  | .eclipsed _ _ fields => fields.forM fun field => checkSpelling "field" field.name field.loc
  | .function loc header body _ => do
    header.typeParams.forM fun name => checkName "type parameter" name loc
    header.params.forM fun param => checkName "parameter" param.name param.loc
    (blockBindings body).forM fun symbol => checkName "binding" symbol.name symbol.loc
  | .builtin loc header _ => do
    header.typeParams.forM fun name => checkName "type parameter" name loc
    header.params.forM fun param => checkName "parameter" param.name param.loc
  | _ => return ()

def checkModuleNames (module_ : TypedModule) : Except Failure Unit := do
  checkName "module" module_.name module_.loc
  module_.items.forM checkItemNames

/-- A struct as lines of Rust text. Its fields are those known under its full name. -/
def structLines (structs : Table StructInfo) (setting : Setting) (loc : Location) (name : String) :
    Except Failure (List String) := do
  let info ← structs.get ⟨setting.moduleName, name⟩
  let lines ← info.fields.mapM fun (field, type) => do
    let type ← setting.type (some loc) type
    return "pub " ++ identifier field ++ ": " ++ type ++ ","
  let opening := "pub struct " ++ identifier name ++ " \x7b"
  return "#[derive(Debug, Clone, PartialEq)]" ::
    if lines.isEmpty then [opening ++ "\x7d"] else opening :: indented lines ++ ["\x7d"]

/-- The names that hide items of the module inside a function. -/
def shadowedNames (signature : Signature) (body : Block TypedStmt) : List String :=
  signature.typeParams.map (·.name) ++ signature.params.map (·.1) ++ (blockBindings body).map (·.name)

/-- The first line of a function. -/
def functionHeader (setting : Setting) (signature : Signature) : Except Failure String := do
  let typeParams := signature.typeParams.map fun param => identifier param.name ++ ": Clone"
  let generics := if typeParams.isEmpty then "" else "<" ++ ", ".intercalate typeParams ++ ">"
  let params ← signature.params.mapM fun (name, type) => do
    let type ← setting.type (some signature.loc) type
    return "mut " ++ identifier name ++ ": " ++ type
  let result ←
    if signature.result = .unit then pure ""
    else do
      let type ← setting.type (some signature.loc) signature.result
      pure (" -> " ++ type)
  return "pub fn " ++ identifier signature.name.name ++ generics ++ "(" ++ ", ".intercalate params ++ ")" ++
    result ++ " \x7b"

/-- A function as lines of Rust text. -/
def functionLines (setting : Setting) (signature : Signature) (body : Block TypedStmt) :
    Except Failure (List String) := do
  let setting := { setting with shadowed := shadowedNames signature body }
  let header ← functionHeader setting signature
  let lines ← setting.block body
  return header :: lines ++ ["\x7d"]

/-- An item as lines of Rust text after a blank one. Uses need none, and builtin functions are
    written where they are called. -/
def itemLines (structs : Table StructInfo) (setting : Setting) : TypedItem → Except Failure (List String)
  | .struct loc name _ | .eclipsed loc name _ => do
    let lines ← structLines structs setting loc name
    return "" :: indented lines
  | .function _ _ body signature => do
    let lines ← functionLines setting signature body
    return "" :: indented lines
  | .opaqueType loc name _ =>
    cannotLower (.opaqueType name) (some loc) (some "only the prelude's Option has a Rust equivalent")
  | .use _ _ | .builtin _ _ _ | .other _ _ => return []

/-- A module as lines of Rust text after a blank one. -/
def moduleLines (registry : Registry) (module_ : TypedModule) : Except Failure (List String) := do
  let lines ← module_.items.mapM (itemLines registry.structs ⟨registry.graph.prelude, module_.name, []⟩)
  return ["", "pub mod " ++ identifier module_.name ++ " \x7b", indentation ++ "use super::*;"] ++
    lines.flatten ++ ["\x7d"]

/-- The warnings that generated text turns off. -/
def allowedLints : List String :=
  ["dead_code", "unused_mut", "unused_variables", "unused_parens", "unused_imports", "unused_must_use",
    "non_snake_case", "non_camel_case_types", "unreachable_code"]

/-- The function that runs a program's entry point, after a blank line. -/
def entryLines (moduleName : String) : List String :=
  ["", "fn main() \x7b", indentation ++ identifier moduleName ++ "::main();", "\x7d"]

/-- A program as the lines of one Rust source file. -/
def crateLines (program : Program) (emitEntry : Bool) : Except Failure (List String) := do
  program.userModules.forM checkModuleNames
  checkContainment program.registry.structs
  let modules ← program.userModules.mapM (moduleLines program.registry)
  let entry :=
    match program.entry with
    | some name => if emitEntry then entryLines name else []
    | none => []
  return ["// Generated by smplc. Do not edit.", "#![allow(" ++ ", ".intercalate allowedLints ++ ")]"] ++
    modules.flatten ++ entry

/-- A program as one Rust source file. -/
def generate (program : Program) (emitEntry : Bool) : Traced String := do
  let lines ← crateLines program emitEntry
  Traced.note ("emitted " ++ toString lines.length ++ " lines of Rust")
  return "\n".intercalate lines ++ "\n"

end Smpl.Rust
