import Smpl.Proofs.Traverse
import Smpl.Syntax.Tree

namespace Smpl

variable (move : Location → Location)

/-- Moves a node that no text gives. What is nowhere stays there. -/
def Foreign.relocate : Foreign → Foreign
  | .nothing => .nothing
  | .expression loc => .expression (move loc)
  | .statement loc => .statement (move loc)
  | .typeExpr loc => .typeExpr (move loc)
  | .item loc name => .item (move loc) name

mutual

/-- Moves a written type and all its parts. -/
def TypeExpr.relocate : TypeExpr → TypeExpr
  | .named loc path args => .named (move loc) path (relocateTypes args)
  | .array loc element length => .array (move loc) element.relocate length
  | .function loc params result => .function (move loc) (relocateTypes params) (relocateResult result)
  | .unknown node => .unknown (node.relocate move)

def relocateTypes : List TypeExpr → List TypeExpr
  | [] => []
  | type :: types => type.relocate :: relocateTypes types

def relocateResult : Option TypeExpr → Option TypeExpr
  | none => none
  | some type => some type.relocate

end

mutual

/-- Moves an expression and all its parts. -/
def Expr.relocate : Expr → Expr
  | .literal loc value => .literal (move loc) value
  | .binding loc path => .binding (move loc) path
  | .field loc root fields => .field (move loc) root fields
  | .call loc callee typeArgs args => .call (move loc) callee (relocateTypes move typeArgs) (relocateExprs args)
  | .init loc struct fields => .init (move loc) struct (relocateInits fields)
  | .unary loc op operand => .unary (move loc) op operand.relocate
  | .binary loc op left right => .binary (move loc) op left.relocate right.relocate
  | .paren loc inner => .paren (move loc) inner.relocate
  | .operatorless loc operands => .operatorless (move loc) (relocateExprs operands)
  | .unknown node => .unknown (node.relocate move)

def relocateExprs : List Expr → List Expr
  | [] => []
  | expr :: exprs => expr.relocate :: relocateExprs exprs

def relocateInits : List (FieldInit Expr) → List (FieldInit Expr)
  | [] => []
  | ⟨loc, name, value⟩ :: inits => ⟨move loc, name, value.relocate⟩ :: relocateInits inits

end

mutual

/-- Moves a statement and all its parts. -/
def Stmt.relocate : Stmt → Stmt
  | .block body => .block (relocateBlock body)
  | .letBinding loc name type value => .letBinding (move loc) name (type.relocate move) (value.relocate move)
  | .assign loc target fields value => .assign (move loc) target fields (value.relocate move)
  | .ifChain loc branches otherwise =>
    .ifChain (move loc) (relocateBranches branches) (relocateElse otherwise)
  | .whileLoop loc condition body => .whileLoop (move loc) (condition.relocate move) (relocateBlock body)
  | .returnValue loc value => .returnValue (move loc) (value.map (Expr.relocate move))
  | .breakLoop loc => .breakLoop (move loc)
  | .continueLoop loc => .continueLoop (move loc)
  | .expression loc value => .expression (move loc) (value.relocate move)
  | .unknown node => .unknown (node.relocate move)

def relocateBlock : Block Stmt → Block Stmt
  | ⟨loc, statements⟩ => ⟨move loc, relocateStmts statements⟩

def relocateStmts : List Stmt → List Stmt
  | [] => []
  | stmt :: stmts => stmt.relocate :: relocateStmts stmts

def relocateBranches : List (Branch Expr Stmt) → List (Branch Expr Stmt)
  | [] => []
  | ⟨loc, condition, body⟩ :: branches =>
    ⟨move loc, condition.relocate move, relocateBlock body⟩ :: relocateBranches branches

def relocateElse : Option (Block Stmt) → Option (Block Stmt)
  | none => none
  | some body => some (relocateBlock body)

end

def Member.relocate {T : Type} (move : Location → Location) (part : T → T) (member : Member T) : Member T where
  loc := move member.loc
  name := member.name
  type := part member.type

def Header.relocate {T : Type} (move : Location → Location) (part : T → T) (header : Header T) : Header T where
  name := header.name
  typeParams := header.typeParams
  params := header.params.map (Member.relocate move part)
  result := header.result.map part

/-- Moves an item and all its parts. -/
def Item.relocate : Item → Item
  | .use loc name => .use (move loc) name
  | .struct loc name fields => .struct (move loc) name (fields.map (Member.relocate move (TypeExpr.relocate move)))
  | .opaqueType loc name typeParams => .opaqueType (move loc) name typeParams
  | .function loc header body =>
    .function (move loc) (header.relocate move (TypeExpr.relocate move)) (relocateBlock move body)
  | .builtin loc header => .builtin (move loc) (header.relocate move (TypeExpr.relocate move))
  | .other loc name => .other (move loc) name

/-- Moves everything in a source file. The file keeps its name. -/
def Module.relocate (module_ : Module) : Module where
  loc := move module_.loc
  name := module_.name
  items := module_.items.map (Item.relocate move)
  file := module_.file

section
variable {move}

theorem relocateTypes_eq_map (types : List TypeExpr) :
    relocateTypes move types = types.map (TypeExpr.relocate move) :=
  eq_map_of_cons rfl fun _ _ => rfl

@[simp] theorem length_relocateTypes (types : List TypeExpr) : (relocateTypes move types).length = types.length := by
  rw [relocateTypes_eq_map, List.length_map]

theorem relocateResult_eq_map (result : Option TypeExpr) :
    relocateResult move result = result.map (TypeExpr.relocate move) := by
  cases result <;> rfl

theorem relocateExprs_eq_map (exprs : List Expr) : relocateExprs move exprs = exprs.map (Expr.relocate move) :=
  eq_map_of_cons rfl fun _ _ => rfl

@[simp] theorem length_relocateExprs (exprs : List Expr) : (relocateExprs move exprs).length = exprs.length := by
  rw [relocateExprs_eq_map, List.length_map]

theorem relocateInits_eq_map (inits : List (FieldInit Expr)) :
    relocateInits move inits = inits.map fun init => ⟨move init.loc, init.name, init.value.relocate move⟩ :=
  eq_map_of_cons rfl fun _ _ => rfl

@[simp] theorem map_name_relocateInits (inits : List (FieldInit Expr)) :
    (relocateInits move inits).map (·.name) = inits.map (·.name) := by
  rw [relocateInits_eq_map, List.map_map]
  rfl

theorem relocateStmts_eq_map (stmts : List Stmt) : relocateStmts move stmts = stmts.map (Stmt.relocate move) :=
  eq_map_of_cons rfl fun _ _ => rfl

theorem relocateBranches_eq_map (branches : List (Branch Expr Stmt)) :
    relocateBranches move branches = branches.map fun branch =>
      ⟨move branch.loc, branch.condition.relocate move, relocateBlock move branch.body⟩ :=
  eq_map_of_cons rfl fun _ _ => rfl

@[simp] theorem Item.name_relocate (item : Item) : (item.relocate move).name = item.name := by
  cases item <;> rfl

@[simp] theorem Item.loc_relocate (item : Item) : (item.relocate move).loc = move item.loc := by
  cases item <;> rfl

@[simp] theorem Item.isUse_relocate (item : Item) : (item.relocate move).isUse = item.isUse := by
  cases item <;> rfl

end

end Smpl
