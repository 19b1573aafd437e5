import Smpl.Syntax.Tree
import Smpl.Types.Scope
import Smpl.Types.Signature

namespace Smpl

/-- A written type with the type that it denotes, and so for each of its parts. -/
inductive TypedTypeExpr
  | named (loc : Location) (path : Path) (args : List TypedTypeExpr) (type : Ty)
  | array (loc : Location) (element : TypedTypeExpr) (length : Int) (type : Ty)
  | function (loc : Location) (params : List TypedTypeExpr) (result : Option TypedTypeExpr) (type : Ty)
deriving Repr, Inhabited

def TypedTypeExpr.type : TypedTypeExpr → Ty
  | .named _ _ _ type | .array _ _ _ type | .function _ _ _ type => type

/-- What a name in an expression stands for. -/
inductive Referent
  | binding (symbol : Local)
  | function (signature : Signature)
deriving Repr, Inhabited

def Referent.type : Referent → Ty
  | .binding symbol => symbol.type
  | .function signature => signature.type

def Literal.type : Literal → Ty
  | .integer _ => .int
  | .float _ => .float
  | .bool _ => .bool
  | .string _ => .string

/-- A checked expression. Names carry what they stand for, and the types that the parts do not give
    are kept. -/
inductive TypedExpr
  | literal (loc : Location) (value : Literal)
  | binding (loc : Location) (path : Path) (referent : Referent)
  | field (loc : Location) (root : Local) (fields : List String) (type : Ty)
  | call (loc : Location) (callee : Path) (typeArgs : List TypedTypeExpr) (args : List TypedExpr)
      (target : Referent) (type : Ty)
  | init (loc : Location) (path : Path) (fields : List (FieldInit TypedExpr)) (struct : ItemName)
  | unary (loc : Location) (op : UnaryOp) (operand : TypedExpr) (type : Ty)
  | binary (loc : Location) (op : BinaryOp) (left right : TypedExpr) (type : Ty)
  | paren (loc : Location) (inner : TypedExpr)
deriving Repr, Inhabited

namespace TypedExpr

def loc : TypedExpr → Location
  | .literal loc _ | .binding loc _ _ | .field loc _ _ _ | .call loc _ _ _ _ _ | .init loc _ _ _
  | .unary loc _ _ _ | .binary loc _ _ _ _ | .paren loc _ => loc

def type : TypedExpr → Ty
  | .literal _ value => value.type
  | .binding _ _ referent => referent.type
  | .field _ _ _ type => type
  | .call _ _ _ _ _ type => type
  | .init _ _ _ struct => .struct struct
  | .unary _ _ _ type => type
  | .binary _ _ _ _ type => type
  | .paren _ inner => inner.type

end TypedExpr

/-- A checked statement. A binding is given by what it declares, and an assignment by what it
    assigns to. -/
inductive TypedStmt
  | block (body : Block TypedStmt)
  | letBinding (symbol : Local) (type : TypedTypeExpr) (value : TypedExpr)
  | assign (loc : Location) (target : Local) (fields : List String) (value : TypedExpr)
  | ifChain (loc : Location) (branches : List (Branch TypedExpr TypedStmt))
      (otherwise : Option (Block TypedStmt))
  | whileLoop (loc : Location) (condition : TypedExpr) (body : Block TypedStmt)
  | returnValue (loc : Location) (value : Option TypedExpr)
  | breakLoop (loc : Location)
  | continueLoop (loc : Location)
  | expression (loc : Location) (value : TypedExpr)
deriving Repr, Inhabited

def TypedStmt.loc : TypedStmt → Location
  | .block body => body.loc
  | .letBinding symbol _ _ => symbol.loc
  | .assign loc _ _ _ | .ifChain loc _ _ | .whileLoop loc _ _ | .returnValue loc _ | .breakLoop loc
  | .continueLoop loc | .expression loc _ => loc

/-- A checked item. Functions carry their signatures. A struct is `eclipsed` if a later one has the
    same full name; nobody asks for the types of its fields. -/
inductive TypedItem
  | use (loc : Location) (name : String)
  | struct (loc : Location) (name : String) (fields : List (Member TypedTypeExpr))
  | eclipsed (loc : Location) (name : String) (fields : List (Member TypeExpr))
  | opaqueType (loc : Location) (name : String) (typeParams : List String)
  | function (loc : Location) (header : Header TypedTypeExpr) (body : Block TypedStmt)
      (signature : Signature)
  | builtin (loc : Location) (header : Header TypedTypeExpr) (signature : Signature)
  | other (loc : Location) (name : String)
deriving Repr, Inhabited

namespace TypedItem

def loc : TypedItem → Location
  | .use loc _ | .struct loc _ _ | .eclipsed loc _ _ | .opaqueType loc _ _ | .function loc _ _ _
  | .builtin loc _ _ | .other loc _ => loc

def name : TypedItem → String
  | .use _ name | .struct _ name _ | .eclipsed _ name _ | .opaqueType _ name _ | .other _ name => name
  | .function _ header _ _ | .builtin _ header _ => header.name

end TypedItem

/-- A checked module under the name by which its program knows it. -/
structure TypedModule where
  name : String
  loc : Location
  declaredName : Option String
  items : List TypedItem
  file : String
  isPrelude : Bool
deriving Repr, Inhabited

end Smpl
