import Smpl.Syntax.Tree

namespace Smpl

mutual

/-- Whether two written types differ at most in their locations. -/
def TypeExpr.same : TypeExpr → TypeExpr → Bool
  | .named _ path args, .named _ path' args' => path = path' && sameTypes args args'
  | .array _ element length, .array _ element' length' => element.same element' && length = length'
  | .function _ params result, .function _ params' result' =>
    sameTypes params params' && sameType? result result'
  | .unknown node, .unknown node' => node.same node'
  | _, _ => false

def sameTypes : List TypeExpr → List TypeExpr → Bool
  | [], [] => true
  | type :: types, type' :: types' => type.same type' && sameTypes types types'
  | _, _ => false

def sameType? : Option TypeExpr → Option TypeExpr → Bool
  | none, none => true
  | some type, some type' => type.same type'
  | _, _ => false

end

mutual

/-- Whether two expressions differ at most in their locations. -/
def Expr.same : Expr → Expr → Bool
  | .literal _ value, .literal _ value' => value = value'
  | .binding _ path, .binding _ path' => path = path'
  | .field _ root fields, .field _ root' fields' => root = root' && fields = fields'
  | .call _ callee typeArgs args, .call _ callee' typeArgs' args' =>
    callee = callee' && sameTypes typeArgs typeArgs' && sameExprs args args'
  | .init _ struct fields, .init _ struct' fields' => struct = struct' && sameInits fields fields'
  | .unary _ op operand, .unary _ op' operand' => op = op' && operand.same operand'
  | .binary _ op left right, .binary _ op' left' right' =>
    op = op' && left.same left' && right.same right'
  | .paren _ inner, .paren _ inner' => inner.same inner'
  | .operatorless _ operands, .operatorless _ operands' => sameExprs operands operands'
  | .unknown node, .unknown node' => node.same node'
  | _, _ => false

def sameExprs : List Expr → List Expr → Bool
  | [], [] => true
  | expr :: exprs, expr' :: exprs' => expr.same expr' && sameExprs exprs exprs'
  | _, _ => false

def sameInits : List (FieldInit Expr) → List (FieldInit Expr) → Bool
  | [], [] => true
  | ⟨_, name, value⟩ :: inits, ⟨_, name', value'⟩ :: inits' =>
    name = name' && value.same value' && sameInits inits inits'
  | _, _ => false

end

/-- Whether two optional expressions differ at most in their locations. -/
def sameExpr? : Option Expr → Option Expr → Bool
  | none, none => true
  | some expr, some expr' => expr.same expr'
  | _, _ => false

mutual

/-- Whether two statements differ at most in their locations. -/
def Stmt.same : Stmt → Stmt → Bool
  | .block body, .block body' => sameBlock body body'
  | .letBinding _ name type value, .letBinding _ name' type' value' =>
    name = name' && type.same type' && value.same value'
  | .assign _ target fields value, .assign _ target' fields' value' =>
    target = target' && fields = fields' && value.same value'
  | .ifChain _ branches otherwise, .ifChain _ branches' otherwise' =>
    sameBranches branches branches' && sameBlock? otherwise otherwise'
  | .whileLoop _ condition body, .whileLoop _ condition' body' =>
    condition.same condition' && sameBlock body body'
  | .returnValue _ value, .returnValue _ value' => sameExpr? value value'
  | .breakLoop _, .breakLoop _ => true
  | .continueLoop _, .continueLoop _ => true
  | .expression _ value, .expression _ value' => value.same value'
  | .unknown node, .unknown node' => node.same node'
  | _, _ => false

def sameBlock : Block Stmt → Block Stmt → Bool
  | ⟨_, statements⟩, ⟨_, statements'⟩ => sameStmts statements statements'

def sameStmts : List Stmt → List Stmt → Bool
  | [], [] => true
  | stmt :: stmts, stmt' :: stmts' => stmt.same stmt' && sameStmts stmts stmts'
  | _, _ => false

def sameBranches : List (Branch Expr Stmt) → List (Branch Expr Stmt) → Bool
  | [], [] => true
  | ⟨_, condition, body⟩ :: branches, ⟨_, condition', body'⟩ :: branches' =>
    condition.same condition' && sameBlock body body' && sameBranches branches branches'
  | _, _ => false

def sameBlock? : Option (Block Stmt) → Option (Block Stmt) → Bool
  | none, none => true
  | some body, some body' => sameBlock body body'
  | _, _ => false

end

/-- Whether two lists have the same length and agree place by place. -/
def sameLists {α : Type} (same : α → α → Bool) : List α → List α → Bool
  | [], [] => true
  | a :: as, b :: bs => same a b && sameLists same as bs
  | _, _ => false

def Member.same (member member' : Member TypeExpr) : Bool :=
  member.name = member'.name && member.type.same member'.type

def Header.same (header header' : Header TypeExpr) : Bool :=
  header.name = header'.name && header.typeParams = header'.typeParams &&
    sameLists Member.same header.params header'.params && sameType? header.result header'.result

/-- Whether two items differ at most in their locations. -/
def Item.same : Item → Item → Bool
  | .use _ name, .use _ name' => name = name'
  | .struct _ name fields, .struct _ name' fields' => name = name' && sameLists Member.same fields fields'
  | .opaqueType _ name params, .opaqueType _ name' params' => name = name' && params = params'
  | .function _ header body, .function _ header' body' => header.same header' && sameBlock body body'
  | .builtin _ header, .builtin _ header' => header.same header'
  | .other _ name, .other _ name' => name = name'
  | _, _ => false

/-- Whether two modules differ at most in their locations and file names. -/
def Module.same (module_ other : Module) : Bool :=
  module_.name = other.name && sameLists Item.same module_.items other.items

end Smpl
