import Smpl.Syntax.Tree

namespace Smpl

/-- The kinds of node that a tree is made of. -/
inductive NodeKind
  | module
  | use
  | struct
  | structField
  | opaqueType
  | parameter
  | function
  | builtin
  | item
  | namedType
  | arrayType
  | functionType
  | unknownType
  | block
  | letBinding
  | assign
  | ifChain
  | branch
  | whileLoop
  | returnValue
  | breakLoop
  | continueLoop
  | expressionStmt
  | unknownStmt
  | integer
  | float
  | bool
  | string
  | binding
  | field
  | call
  | init
  | fieldInit
  | unary
  | binary
  | paren
  | unknownExpr
deriving DecidableEq, Repr

def TypeExpr.kind : TypeExpr → NodeKind
  | .named .. => .namedType
  | .array .. => .arrayType
  | .function .. => .functionType
  | .unknown _ => .unknownType

def Literal.kind : Literal → NodeKind
  | .integer _ => .integer
  | .float _ => .float
  | .bool _ => .bool
  | .string _ => .string

def Expr.kind : Expr → NodeKind
  | .literal _ value => value.kind
  | .binding .. => .binding
  | .field .. => .field
  | .call .. => .call
  | .init .. => .init
  | .unary .. => .unary
  | .binary .. => .binary
  | .paren .. => .paren
  | .operatorless _ [_] => .unary
  | .operatorless _ _ => .binary
  | .unknown _ => .unknownExpr

def Stmt.kind : Stmt → NodeKind
  | .block _ => .block
  | .letBinding .. => .letBinding
  | .assign .. => .assign
  | .ifChain .. => .ifChain
  | .whileLoop .. => .whileLoop
  | .returnValue .. => .returnValue
  | .breakLoop _ => .breakLoop
  | .continueLoop _ => .continueLoop
  | .expression .. => .expressionStmt
  | .unknown _ => .unknownStmt

def Item.kind : Item → NodeKind
  | .use .. => .use
  | .struct .. => .struct
  | .opaqueType .. => .opaqueType
  | .function .. => .function
  | .builtin .. => .builtin
  | .other .. => .item

/-- A node met on a walk through a tree, and whether the walk stopped there. -/
structure Visit where
  kind : NodeKind
  loc : Location
  stopped : Bool
deriving DecidableEq, Repr

/-- The visit of a node and then of the nodes below it, unless the walk stops at its kind. -/
def visit (stop : NodeKind → Bool) (kind : NodeKind) (loc : Location) (below : List Visit) : List Visit :=
  if stop kind then [⟨kind, loc, true⟩] else ⟨kind, loc, false⟩ :: below

mutual

/-- The walk through a written type, each node before those below it and those in reading order. -/
def TypeExpr.walk (stop : NodeKind → Bool) : TypeExpr → List Visit
  | .named loc _ args => visit stop .namedType loc (walkTypes stop args)
  | .array loc element _ => visit stop .arrayType loc (element.walk stop)
  | .function loc params result =>
    visit stop .functionType loc (walkTypes stop params ++ walkResult stop result)
  | .unknown node => visit stop .unknownType node.loc []

def walkTypes (stop : NodeKind → Bool) : List TypeExpr → List Visit
  | [] => []
  | type :: types => type.walk stop ++ walkTypes stop types

def walkResult (stop : NodeKind → Bool) : Option TypeExpr → List Visit
  | none => []
  | some type => type.walk stop

end

mutual

/-- The walk through an expression. -/
def Expr.walk (stop : NodeKind → Bool) : Expr → List Visit
  | .literal loc value => visit stop value.kind loc []
  | .binding loc _ => visit stop .binding loc []
  | .field loc _ _ => visit stop .field loc []
  | .call loc _ typeArgs args => visit stop .call loc (walkTypes stop typeArgs ++ walkExprs stop args)
  | .init loc _ fields => visit stop .init loc (walkInits stop fields)
  | .unary loc _ operand => visit stop .unary loc (operand.walk stop)
  | .binary loc _ left right => visit stop .binary loc (left.walk stop ++ right.walk stop)
  | .paren loc inner => visit stop .paren loc (inner.walk stop)
  | .operatorless loc operands => visit stop (Expr.operatorless loc operands).kind loc (walkExprs stop operands)
  | .unknown node => visit stop .unknownExpr node.loc []

def walkExprs (stop : NodeKind → Bool) : List Expr → List Visit
  | [] => []
  | expr :: exprs => expr.walk stop ++ walkExprs stop exprs

def walkInits (stop : NodeKind → Bool) : List (FieldInit Expr) → List Visit
  | [] => []
  | ⟨loc, _, value⟩ :: inits => visit stop .fieldInit loc (value.walk stop) ++ walkInits stop inits

end

mutual

/-- The walk through a statement. -/
def Stmt.walk (stop : NodeKind → Bool) : Stmt → List Visit
  | .block body => walkBlock stop body
  | .letBinding loc _ type value => visit stop .letBinding loc (type.walk stop ++ value.walk stop)
  | .assign loc _ _ value => visit stop .assign loc (value.walk stop)
  | .ifChain loc branches otherwise =>
    visit stop .ifChain loc (walkBranches stop branches ++ walkElse stop otherwise)
  | .whileLoop loc condition body =>
    visit stop .whileLoop loc (condition.walk stop ++ walkBlock stop body)
  | .returnValue loc none => visit stop .returnValue loc []
  | .returnValue loc (some value) => visit stop .returnValue loc (value.walk stop)
  | .breakLoop loc => visit stop .breakLoop loc []
  | .continueLoop loc => visit stop .continueLoop loc []
  | .expression loc value => visit stop .expressionStmt loc (value.walk stop)
  | .unknown node => visit stop .unknownStmt node.loc []

def walkBlock (stop : NodeKind → Bool) : Block Stmt → List Visit
  | ⟨loc, statements⟩ => visit stop .block loc (walkStmts stop statements)

def walkStmts (stop : NodeKind → Bool) : List Stmt → List Visit
  | [] => []
  | stmt :: stmts => stmt.walk stop ++ walkStmts stop stmts

def walkBranches (stop : NodeKind → Bool) : List (Branch Expr Stmt) → List Visit
  | [] => []
  | ⟨loc, condition, body⟩ :: branches =>
    visit stop .branch loc (condition.walk stop ++ walkBlock stop body) ++ walkBranches stop branches

def walkElse (stop : NodeKind → Bool) : Option (Block Stmt) → List Visit
  | none => []
  | some body => walkBlock stop body

end

/-- The walk through struct fields or parameters, which are nodes of the given kind. -/
def walkMembers (stop : NodeKind → Bool) (kind : NodeKind) (members : List (Member TypeExpr)) : List Visit :=
  members.flatMap fun member => visit stop kind member.loc (member.type.walk stop)

def Header.walk (stop : NodeKind → Bool) (header : Header TypeExpr) : List Visit :=
  walkMembers stop .parameter header.params ++ walkResult stop header.result

/-- The walk through an item. -/
def Item.walk (stop : NodeKind → Bool) : Item → List Visit
  | .use loc _ => visit stop .use loc []
  | .struct loc _ fields => visit stop .struct loc (walkMembers stop .structField fields)
  | .opaqueType loc _ _ => visit stop .opaqueType loc []
  | .function loc header body => visit stop .function loc (header.walk stop ++ walkBlock stop body)
  | .builtin loc header => visit stop .builtin loc (header.walk stop)
  | .other loc _ => visit stop .item loc []

/-- The walk through a module: every node before those below it, in reading order. -/
def Module.walk (stop : NodeKind → Bool) (module_ : Module) : List Visit :=
  visit stop .module module_.loc (module_.items.flatMap (Item.walk stop))

end Smpl
