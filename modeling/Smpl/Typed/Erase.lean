import Smpl.Typed.Program

namespace Smpl

mutual

/-- What was written for a type. -/
def TypedTypeExpr.erase : TypedTypeExpr → TypeExpr
  | .named loc path args _ => .named loc path (eraseTypes args)
  | .array loc element length _ => .array loc element.erase length
  | .function loc params result _ => .function loc (eraseTypes params) (eraseResult result)

def eraseTypes : List TypedTypeExpr → List TypeExpr
  | [] => []
  | type :: types => type.erase :: eraseTypes types

def eraseResult : Option TypedTypeExpr → Option TypeExpr
  | none => none
  | some type => some type.erase

end

mutual

/-- What was written for an expression. -/
def TypedExpr.erase : TypedExpr → Expr
  | .literal loc value => .literal loc value
  | .binding loc path _ => .binding loc path
  | .field loc root fields _ => .field loc root.name fields
  | .call loc callee typeArgs args _ _ => .call loc callee (eraseTypes typeArgs) (eraseExprs args)
  | .init loc path fields _ => .init loc path (eraseInits fields)
  | .unary loc op operand _ => .unary loc op operand.erase
  | .binary loc op left right _ => .binary loc op left.erase right.erase
  | .paren loc inner => .paren loc inner.erase

def eraseExprs : List TypedExpr → List Expr
  | [] => []
  | expr :: exprs => expr.erase :: eraseExprs exprs

def eraseInits : List (FieldInit TypedExpr) → List (FieldInit Expr)
  | [] => []
  | ⟨loc, name, value⟩ :: inits => ⟨loc, name, value.erase⟩ :: eraseInits inits

end

mutual

/-- What was written for a statement. -/
def TypedStmt.erase : TypedStmt → Stmt
  | .block body => .block (eraseBlock body)
  | .letBinding symbol type value => .letBinding symbol.loc symbol.name type.erase value.erase
  | .assign loc target fields value => .assign loc target.name fields value.erase
  | .ifChain loc branches otherwise => .ifChain loc (eraseBranches branches) (eraseElse otherwise)
  | .whileLoop loc condition body => .whileLoop loc condition.erase (eraseBlock body)
  | .returnValue loc value => .returnValue loc (value.map TypedExpr.erase)
  | .breakLoop loc => .breakLoop loc
  | .continueLoop loc => .continueLoop loc
  | .expression loc value => .expression loc value.erase

def eraseBlock : Block TypedStmt → Block Stmt
  | ⟨loc, statements⟩ => ⟨loc, eraseStmts statements⟩

def eraseStmts : List TypedStmt → List Stmt
  | [] => []
  | stmt :: stmts => stmt.erase :: eraseStmts stmts

def eraseBranches : List (Branch TypedExpr TypedStmt) → List (Branch Expr Stmt)
  | [] => []
  | ⟨loc, condition, body⟩ :: branches => ⟨loc, condition.erase, eraseBlock body⟩ :: eraseBranches branches

def eraseElse : Option (Block TypedStmt) → Option (Block Stmt)
  | none => none
  | some body => some (eraseBlock body)

end

def Member.erase (member : Member TypedTypeExpr) : Member TypeExpr :=
  { member with type := member.type.erase }

def Header.erase (header : Header TypedTypeExpr) : Header TypeExpr :=
  { header with params := header.params.map Member.erase, result := eraseResult header.result }

/-- What was written for an item. -/
def TypedItem.erase : TypedItem → Item
  | .use loc name => .use loc name
  | .struct loc name fields => .struct loc name (fields.map Member.erase)
  | .eclipsed loc name fields => .struct loc name fields
  | .opaqueType loc name typeParams => .opaqueType loc name typeParams
  | .function loc header body _ => .function loc header.erase (eraseBlock body)
  | .builtin loc header _ => .builtin loc header.erase
  | .other loc name => .other loc name

/-- The module as it was read. -/
def TypedModule.erase (module_ : TypedModule) : Module where
  loc := module_.loc
  name := module_.declaredName
  items := module_.items.map TypedItem.erase
  file := module_.file

end Smpl
