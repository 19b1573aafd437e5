import Smpl.Double.Text
import Smpl.Rust.Type
import Smpl.Typed.Tree

namespace Smpl

def TypedExpr.isBinary : TypedExpr → Bool
  | .binary _ _ _ _ _ => true
  | _ => false

def TypedExpr.isOperation : TypedExpr → Bool
  | .unary _ _ _ _ | .binary _ _ _ _ _ => true
  | _ => false

mutual

/-- Whether a struct initializer shows in the text of an expression outside of another one. -/
def TypedExpr.showsInit : TypedExpr → Bool
  | .init _ _ _ _ => true
  | .paren _ inner => inner.showsInit
  | .unary _ _ operand _ => operand.showsInit
  | .binary _ _ left right _ => left.showsInit || right.showsInit
  | .call _ _ _ args _ _ => TypedExpr.anyShowsInit args
  | .literal _ _ | .binding _ _ _ | .field _ _ _ _ => false

def TypedExpr.anyShowsInit : List TypedExpr → Bool
  | [] => false
  | expr :: others => expr.showsInit || TypedExpr.anyShowsInit others

end

namespace Rust

def literalText : Literal → String
  | .integer value => if value > 2147483647 then toString value ++ "i64" else toString value
  | .float value => value.literal
  | .bool value => if value then "true" else "false"
  | .string value => "String::from(" ++ stringLiteral value ++ ")"

/-- The Rust text of a binding and a chain of fields in it. -/
def chain (root : String) (fields : List String) : String :=
  ".".intercalate ((root :: fields).map identifier)

/-- Reads a place. Values that Rust would move out of it are cloned. -/
def read (place : String) (type : Ty) : String :=
  if type.isCopy then place else place ++ ".clone()"

/-- The place that an expression names, if it names one. -/
def place? : TypedExpr → Option String
  | .binding _ _ (.binding symbol) => some (identifier symbol.name)
  | .field _ root fields _ => some (chain root.name fields)
  | _ => none

/-- Puts parentheses around the text of a binary operation. -/
def operand (expr : TypedExpr) (text : String) : String :=
  if expr.isBinary then "(" ++ text ++ ")" else text

/-- The text of a prefix operation from that of its operand. A reference is taken to a place itself
    and not to a clone of it, unless the place has no text. -/
def unaryText (op : UnaryOp) (expr : TypedExpr) (text : String) (type : Ty) : String :=
  match op with
  | .dereference =>
    if type.isCopy then "*" ++ operand expr text else "(*" ++ operand expr text ++ ").clone()"
  | .reference => "&" ++ ((place? expr).filter (· ≠ "")).getD (operand expr text)
  | .negate | .not => op.spelling ++ operand expr text

/-- The functions of the prelude that are methods in Rust. -/
def optionMethods : List String :=
  ["is_some", "is_none", "unwrap", "expect", "unwrap_or", "map"]

namespace Setting

/-- What a name without a call stands for, as Rust text. -/
def referent (setting : Setting) (loc : Location) : Referent → Except Failure String
  | .binding symbol => .ok (read (identifier symbol.name) symbol.type)
  | .function signature =>
    if signature.isBuiltin then
      cannotLower (.builtinValue signature.name.name) (some loc) (some "call it directly instead")
    else .ok (setting.itemPath signature.name)

/-- The text of a call of a builtin function, from the texts of its arguments. -/
def builtinCall (setting : Setting) (loc : Location) (name : ItemName) (typeArgs : List Ty)
    (args : List TypedExpr) (texts : List String) : Except Failure String :=
  if some name.moduleName ≠ setting.prelude then
    cannotLower (.builtinFunction name.text) (some loc) (some "only prelude intrinsics have a Rust lowering")
  else if name.name = "some" then
    match texts with
    | [] => .error (.defect .missingArgument)
    | text :: _ => .ok ("Some(" ++ text ++ ")")
  else if name.name = "none" then
    match typeArgs with
    | [] => .error (.defect .missingArgument)
    | type :: _ => do
      let type ← setting.type (some loc) type
      return "None::<" ++ type ++ ">"
  else if optionMethods.contains name.name then
    match args, texts with
    | arg :: _, text :: others => do
      let receiver := if arg.isOperation then "(" ++ text ++ ")" else text
      let others ←
        if name.name = "expect" then
          match others with
          | [] => .error (.defect .missingArgument)
          | message :: _ => .ok ["&" ++ message]
        else .ok others
      return receiver ++ "." ++ name.name ++ "(" ++ ", ".intercalate others ++ ")"
    | _, _ => .error (.defect .missingArgument)
  else cannotLower (.builtinFunction name.name) (some loc) none

/-- The text of a call from the texts of its arguments. -/
def call (setting : Setting) (loc : Location) (target : Referent) (typeArgs : List Ty)
    (args : List TypedExpr) (texts : List String) : Except Failure String :=
  match target with
  | .binding symbol => .ok (identifier symbol.name ++ "(" ++ ", ".intercalate texts ++ ")")
  | .function signature =>
    if signature.isBuiltin then setting.builtinCall loc signature.name typeArgs args texts
    else do
      let types ← setting.types (some loc) typeArgs
      let turbofish := if types.isEmpty then "" else "::<" ++ ", ".intercalate types ++ ">"
      return setting.itemPath signature.name ++ turbofish ++ "(" ++ ", ".intercalate texts ++ ")"

mutual

/-- An expression as Rust text. -/
def expr (setting : Setting) : TypedExpr → Except Failure String
  | .literal _ value => return literalText value
  | .binding loc _ referent => setting.referent loc referent
  | .field _ root fields type => return read (chain root.name fields) type
  | .call loc _ typeArgs args target _ => do
    let texts ← setting.exprs args
    setting.call loc target (typeArgs.map (·.type)) args texts
  | .init _ _ fields struct => do
    let texts ← setting.inits fields
    if texts.isEmpty then return setting.itemPath struct ++ " \x7b\x7d"
    return setting.itemPath struct ++ " \x7b " ++ ", ".intercalate texts ++ " \x7d"
  | .unary _ op inner type => do
    let text ← setting.expr inner
    return unaryText op inner text type
  | .binary _ op left right _ => do
    let leftText ← setting.expr left
    let rightText ← setting.expr right
    return operand left leftText ++ " " ++ op.spelling ++ " " ++ operand right rightText
  | .paren _ inner => do
    let text ← setting.expr inner
    return "(" ++ text ++ ")"

def exprs (setting : Setting) : List TypedExpr → Except Failure (List String)
  | [] => return []
  | expr :: others => do
    let text ← setting.expr expr
    let texts ← setting.exprs others
    return text :: texts

def inits (setting : Setting) : List (FieldInit TypedExpr) → Except Failure (List String)
  | [] => return []
  | ⟨_, name, value⟩ :: others => do
    let text ← setting.expr value
    let texts ← setting.inits others
    return (identifier name ++ ": " ++ text) :: texts

end

/-- A condition as Rust text. Rust takes a struct initializer there only in parentheses. -/
def condition (setting : Setting) (expr : TypedExpr) : Except Failure String := do
  let text ← setting.expr expr
  return if expr.showsInit then "(" ++ text ++ ")" else text

end Setting

end Rust

end Smpl
