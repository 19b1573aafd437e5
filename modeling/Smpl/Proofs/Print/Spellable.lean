import Smpl.Syntax.Tree
import Smpl.Token.Stream

namespace Smpl

/-- Whether a text is a name: it starts and goes on as one, and it is no reserved word. -/
def isName (text : String) : Bool :=
  match text.toList with
  | [] => false
  | c :: rest => isIdentifierStart c && rest.all isIdentifierPart && (Keyword.ofSpelling? text).isNone

/-- A double that a literal can denote. -/
def Double.isSpellable (x : Double) : Bool :=
  x.isFinite && !x.isNegative

/-- A kind of token that a text can have. -/
def TokenKind.isSpellable : TokenKind → Bool
  | .identifier name => isName name
  | .integer value => value ≤ maxInteger
  | .float value => value.isSpellable
  | .string _ | .keyword _ | .symbol _ => true

def Path.isSpellable (path : Path) : Bool :=
  !path.isMissing && path.segments.all isName

def Literal.isSpellable : Literal → Bool
  | .integer value => 0 ≤ value && value ≤ maxInteger
  | .float value => value.isSpellable
  | .bool _ | .string _ => true

/-- A written type that some text denotes. -/
inductive TypeExpr.Spellable : TypeExpr → Prop
  | named {loc : Location} {path : Path} {args : List TypeExpr} :
    path.isSpellable = true → (∀ type ∈ args, type.Spellable) → Spellable (.named loc path args)
  | array {loc : Location} {element : TypeExpr} {length : Int} :
    element.Spellable → 0 < length → length ≤ maxInteger → Spellable (.array loc element length)
  | function {loc : Location} {params : List TypeExpr} {result : Option TypeExpr} :
    (∀ type ∈ params, type.Spellable) → (∀ type ∈ result, type.Spellable) → Spellable (.function loc params result)

/-- An expression that some text denotes, up to parentheses that its grouping needs. -/
inductive Expr.Spellable : Expr → Prop
  | literal {loc : Location} {value : Literal} : value.isSpellable = true → Spellable (.literal loc value)
  | binding {loc : Location} {path : Path} : path.isSpellable = true → Spellable (.binding loc path)
  | field {loc : Location} {root : String} {fields : List String} :
    isName root = true → fields ≠ [] → (∀ name ∈ fields, isName name = true) → Spellable (.field loc root fields)
  | call {loc : Location} {callee : Path} {typeArgs : List TypeExpr} {args : List Expr} :
    callee.isSpellable = true → (∀ type ∈ typeArgs, type.Spellable) → (∀ e ∈ args, e.Spellable) →
    Spellable (.call loc callee typeArgs args)
  | init {loc : Location} {struct : Path} {fields : List (FieldInit Expr)} :
    struct.isSpellable = true → (∀ init ∈ fields, isName init.name = true) →
    (∀ init ∈ fields, init.value.Spellable) → Spellable (.init loc struct fields)
  | unary {loc : Location} {op : UnaryOp} {operand : Expr} : operand.Spellable → Spellable (.unary loc op operand)
  | binary {loc : Location} {op : BinaryOp} {left right : Expr} :
    left.Spellable → right.Spellable → Spellable (.binary loc op left right)
  | paren {loc : Location} {inner : Expr} : inner.Spellable → Spellable (.paren loc inner)

/-- A statement that some text denotes, up to parentheses. -/
inductive Stmt.Spellable : Stmt → Prop
  | block {body : Block Stmt} : (∀ stmt ∈ body.statements, stmt.Spellable) → Spellable (.block body)
  | letBinding {loc : Location} {name : String} {type : TypeExpr} {value : Expr} :
    isName name = true → type.Spellable → value.Spellable → Spellable (.letBinding loc name type value)
  | assign {loc : Location} {target : String} {fields : List String} {value : Expr} :
    isName target = true → (∀ name ∈ fields, isName name = true) → value.Spellable →
    Spellable (.assign loc target fields value)
  | ifChain {loc : Location} {branches : List (Branch Expr Stmt)} {otherwise : Option (Block Stmt)} :
    branches ≠ [] → (∀ branch ∈ branches, branch.condition.Spellable) →
    (∀ branch ∈ branches, ∀ stmt ∈ branch.body.statements, stmt.Spellable) →
    (∀ body ∈ otherwise, ∀ stmt ∈ body.statements, stmt.Spellable) → Spellable (.ifChain loc branches otherwise)
  | whileLoop {loc : Location} {condition : Expr} {body : Block Stmt} :
    condition.Spellable → (∀ stmt ∈ body.statements, stmt.Spellable) → Spellable (.whileLoop loc condition body)
  | returnValue {loc : Location} {value : Option Expr} :
    (∀ e ∈ value, e.Spellable) → Spellable (.returnValue loc value)
  | breakLoop {loc : Location} : Spellable (.breakLoop loc)
  | continueLoop {loc : Location} : Spellable (.continueLoop loc)
  | expression {loc : Location} {value : Expr} : value.Spellable → Spellable (.expression loc value)

structure Member.Spellable (member : Member TypeExpr) : Prop where
  name : isName member.name = true
  type : member.type.Spellable

structure Header.Spellable (header : Header TypeExpr) : Prop where
  name : isName header.name = true
  typeParams : ∀ name ∈ header.typeParams, isName name = true
  params : ∀ param ∈ header.params, param.Spellable
  result : ∀ type ∈ header.result, type.Spellable

/-- An item that some text denotes, up to parentheses. -/
inductive Item.Spellable : Item → Prop
  | use {loc : Location} {name : String} : isName name = true → Spellable (.use loc name)
  | struct {loc : Location} {name : String} {fields : List (Member TypeExpr)} :
    isName name = true → (∀ field ∈ fields, field.Spellable) → Spellable (.struct loc name fields)
  | opaqueType {loc : Location} {name : String} {typeParams : List String} :
    isName name = true → (∀ param ∈ typeParams, isName param = true) → Spellable (.opaqueType loc name typeParams)
  | function {loc : Location} {header : Header TypeExpr} {body : Block Stmt} :
    header.Spellable → (∀ stmt ∈ body.statements, stmt.Spellable) → Spellable (.function loc header body)
  | builtin {loc : Location} {header : Header TypeExpr} : header.Spellable → Spellable (.builtin loc header)

/-- A module that some text denotes, up to parentheses. -/
structure Module.Spellable (module_ : Module) : Prop where
  name : ∀ name ∈ module_.name, isName name = true
  items : ∀ item ∈ module_.items, item.Spellable

end Smpl
