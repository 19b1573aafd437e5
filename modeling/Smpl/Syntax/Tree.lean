import Smpl.Double.Basic
import Smpl.Location
import Smpl.Syntax.Foreign
import Smpl.Syntax.Operator
import Smpl.Syntax.Path

namespace Smpl

/-- A type as it is written. `unknown` stands where no text puts a type. -/
inductive TypeExpr
  | named (loc : Location) (path : Path) (args : List TypeExpr)
  | array (loc : Location) (element : TypeExpr) (length : Int)
  | function (loc : Location) (params : List TypeExpr) (result : Option TypeExpr)
  | unknown (node : Foreign)
deriving Repr, Inhabited

def TypeExpr.loc : TypeExpr → Location
  | .named loc _ _ | .array loc _ _ | .function loc _ _ => loc
  | .unknown node => node.loc

/-- The value of a literal. Text gives no negative numbers; trees made by hand may hold them. -/
inductive Literal
  | integer (value : Int)
  | float (value : Double)
  | bool (value : Bool)
  | string (value : String)
deriving DecidableEq, Repr, Inhabited

/-- A field with its value in a struct initializer. -/
structure FieldInit (E : Type) where
  loc : Location
  name : String
  value : E
deriving Repr, Inhabited

/-- An expression as it is written, its parentheses included. No text gives an operation without its
    operator, or an `unknown` expression. -/
inductive Expr
  | literal (loc : Location) (value : Literal)
  | binding (loc : Location) (path : Path)
  | field (loc : Location) (root : String) (fields : List String)
  | call (loc : Location) (callee : Path) (typeArgs : List TypeExpr) (args : List Expr)
  | init (loc : Location) (struct : Path) (fields : List (FieldInit Expr))
  | unary (loc : Location) (op : UnaryOp) (operand : Expr)
  | binary (loc : Location) (op : BinaryOp) (left right : Expr)
  | paren (loc : Location) (inner : Expr)
  | operatorless (loc : Location) (operands : List Expr)
  | unknown (node : Foreign)
deriving Repr, Inhabited

def Expr.loc : Expr → Location
  | .literal loc _ | .binding loc _ | .field loc _ _ | .call loc _ _ _ | .init loc _ _
  | .unary loc _ _ | .binary loc _ _ _ | .paren loc _ | .operatorless loc _ => loc
  | .unknown node => node.loc

/-- Statements in braces. -/
structure Block (S : Type) where
  loc : Location
  statements : List S
deriving Repr, Inhabited

/-- A condition with the block that it guards. -/
structure Branch (E S : Type) where
  loc : Location
  condition : E
  body : Block S
deriving Repr, Inhabited

/-- A statement as it is written. `unknown` stands where no text puts a statement. -/
inductive Stmt
  | block (body : Block Stmt)
  | letBinding (loc : Location) (name : String) (type : TypeExpr) (value : Expr)
  | assign (loc : Location) (target : String) (fields : List String) (value : Expr)
  | ifChain (loc : Location) (branches : List (Branch Expr Stmt)) (otherwise : Option (Block Stmt))
  | whileLoop (loc : Location) (condition : Expr) (body : Block Stmt)
  | returnValue (loc : Location) (value : Option Expr)
  | breakLoop (loc : Location)
  | continueLoop (loc : Location)
  | expression (loc : Location) (value : Expr)
  | unknown (node : Foreign)
deriving Repr, Inhabited

def Stmt.loc : Stmt → Location
  | .block body => body.loc
  | .letBinding loc _ _ _ | .assign loc _ _ _ | .ifChain loc _ _ | .whileLoop loc _ _
  | .returnValue loc _ | .breakLoop loc | .continueLoop loc | .expression loc _ => loc
  | .unknown node => node.loc

/-- A block that a tree made by hand lacks. It fails where its statements are asked for. -/
def Block.missing : Block Stmt :=
  ⟨default, [.unknown .nothing]⟩

/-- A struct field or a function parameter: a name with its type. -/
structure Member (T : Type) where
  loc : Location
  name : String
  type : T
deriving Repr, Inhabited

/-- What functions and builtin functions declare alike. No result type means that nothing is
    returned. -/
structure Header (T : Type) where
  name : String
  typeParams : List String
  params : List (Member T)
  result : Option T
deriving Repr, Inhabited

/-- A top-level item. `other` stands for an item node that no text gives. -/
inductive Item
  | use (loc : Location) (name : String)
  | struct (loc : Location) (name : String) (fields : List (Member TypeExpr))
  | opaqueType (loc : Location) (name : String) (typeParams : List String)
  | function (loc : Location) (header : Header TypeExpr) (body : Block Stmt)
  | builtin (loc : Location) (header : Header TypeExpr)
  | other (loc : Location) (name : String)
deriving Repr, Inhabited

namespace Item

def loc : Item → Location
  | .use loc _ | .struct loc _ _ | .opaqueType loc _ _ | .function loc _ _ | .builtin loc _
  | .other loc _ => loc

def name : Item → String
  | .use _ name | .struct _ name _ | .opaqueType _ name _ | .other _ name => name
  | .function _ header _ | .builtin _ header => header.name

def isUse : Item → Bool
  | .use _ _ => true
  | _ => false

end Item

/-- One source file: the module it declares, if it names one, and its items. -/
structure Module where
  loc : Location
  name : Option String
  items : List Item
  file : String
deriving Repr, Inhabited

end Smpl
