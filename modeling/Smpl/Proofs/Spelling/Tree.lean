import Smpl.Proofs.Syntax.Induction
import Smpl.Typed.Erase

namespace Smpl

open List

variable (full : Bool)

/-- The item that a type stands for by its name. -/
def Ty.item? : Ty → Option ItemName
  | .struct name | .opaqueType name _ => some name
  | _ => none

/-- The item that a name in an expression stands for. -/
def Referent.item? : Referent → Option ItemName
  | .binding _ => none
  | .function signature => some signature.name

/-- A path that stands for an item, with the module of the item if `full`. Paths with a module and names
    of anything else stay as they are. -/
def Path.spelled (path : Path) : Option ItemName → Path
  | some item => if full && !path.isQualified then ⟨[item.moduleName], item.name, false⟩ else path
  | none => path

mutual

/-- A resolved type in which the paths of items are spelled in full. -/
def TypedTypeExpr.spelled : TypedTypeExpr → TypedTypeExpr
  | .named loc path args type => .named loc (path.spelled full type.item?) (spelledTypes args) type
  | .array loc element length type => .array loc element.spelled length type
  | .function loc params result type => .function loc (spelledTypes params) (spelledResult result) type

def spelledTypes : List TypedTypeExpr → List TypedTypeExpr
  | [] => []
  | type :: types => type.spelled :: spelledTypes types

def spelledResult : Option TypedTypeExpr → Option TypedTypeExpr
  | none => none
  | some type => some type.spelled

end

mutual

/-- A checked expression in which the paths of items are spelled in full. -/
def TypedExpr.spelled : TypedExpr → TypedExpr
  | .literal loc value => .literal loc value
  | .binding loc path referent => .binding loc (path.spelled full referent.item?) referent
  | .field loc root fields type => .field loc root fields type
  | .call loc callee typeArgs args target type =>
    .call loc (callee.spelled full target.item?) (spelledTypes full typeArgs) (spelledExprs args) target type
  | .init loc path fields struct => .init loc (path.spelled full (some struct)) (spelledInits fields) struct
  | .unary loc op operand type => .unary loc op operand.spelled type
  | .binary loc op left right type => .binary loc op left.spelled right.spelled type
  | .paren loc inner => .paren loc inner.spelled

def spelledExprs : List TypedExpr → List TypedExpr
  | [] => []
  | e :: exprs => e.spelled :: spelledExprs exprs

def spelledInits : List (FieldInit TypedExpr) → List (FieldInit TypedExpr)
  | [] => []
  | ⟨loc, name, value⟩ :: inits => ⟨loc, name, value.spelled⟩ :: spelledInits inits

end

mutual

/-- A checked statement in which the paths of items are spelled in full. -/
def TypedStmt.spelled : TypedStmt → TypedStmt
  | .block body => .block (spelledBlock body)
  | .letBinding symbol type value => .letBinding symbol (type.spelled full) (value.spelled full)
  | .assign loc target fields value => .assign loc target fields (value.spelled full)
  | .ifChain loc branches otherwise => .ifChain loc (spelledBranches branches) (spelledElse otherwise)
  | .whileLoop loc condition body => .whileLoop loc (condition.spelled full) (spelledBlock body)
  | .returnValue loc value => .returnValue loc (value.map (TypedExpr.spelled full))
  | .breakLoop loc => .breakLoop loc
  | .continueLoop loc => .continueLoop loc
  | .expression loc value => .expression loc (value.spelled full)

def spelledBlock : Block TypedStmt → Block TypedStmt
  | ⟨loc, statements⟩ => ⟨loc, spelledStmts statements⟩

def spelledStmts : List TypedStmt → List TypedStmt
  | [] => []
  | stmt :: stmts => stmt.spelled :: spelledStmts stmts

def spelledBranches : List (Branch TypedExpr TypedStmt) → List (Branch TypedExpr TypedStmt)
  | [] => []
  | ⟨loc, condition, body⟩ :: branches =>
    ⟨loc, condition.spelled full, spelledBlock body⟩ :: spelledBranches branches

def spelledElse : Option (Block TypedStmt) → Option (Block TypedStmt)
  | none => none
  | some body => some (spelledBlock body)

end

def Member.spelled (member : Member TypedTypeExpr) : Member TypedTypeExpr :=
  { member with type := member.type.spelled full }

def Header.spelled (header : Header TypedTypeExpr) : Header TypedTypeExpr :=
  { header with params := header.params.map (Member.spelled full), result := spelledResult full header.result }

/-- A checked item in which the paths of items are spelled in full. The fields of an eclipsed struct were
    not resolved, so they stay as they are. -/
def TypedItem.spelled : TypedItem → TypedItem
  | .struct loc name fields => .struct loc name (fields.map (Member.spelled full))
  | .function loc header body signature => .function loc (header.spelled full) (spelledBlock full body) signature
  | .builtin loc header signature => .builtin loc (header.spelled full) signature
  | item => item

def TypedItem.isUse : TypedItem → Bool
  | .use _ _ => true
  | _ => false

/-- A checked module in which the paths of items are spelled in full and that uses no other module, if
    `full`, and the module itself if not. -/
def TypedModule.spelled (module_ : TypedModule) : TypedModule :=
  { module_ with items := (module_.items.filter fun item => !(full && item.isUse)).map (TypedItem.spelled full) }

theorem spelledTypes_eq_map (types : List TypedTypeExpr) :
    spelledTypes full types = types.map (TypedTypeExpr.spelled full) :=
  eq_map_of_cons rfl fun _ _ => rfl

theorem spelledExprs_eq_map (exprs : List TypedExpr) :
    spelledExprs full exprs = exprs.map (TypedExpr.spelled full) :=
  eq_map_of_cons rfl fun _ _ => rfl

def FieldInit.spelled (init : FieldInit TypedExpr) : FieldInit TypedExpr :=
  { init with value := init.value.spelled full }

theorem spelledInits_eq_map (inits : List (FieldInit TypedExpr)) :
    spelledInits full inits = inits.map (FieldInit.spelled full) :=
  eq_map_of_cons rfl fun _ _ => rfl

theorem spelledStmts_eq_map (stmts : List TypedStmt) :
    spelledStmts full stmts = stmts.map (TypedStmt.spelled full) :=
  eq_map_of_cons rfl fun _ _ => rfl

def Branch.spelled (branch : Branch TypedExpr TypedStmt) : Branch TypedExpr TypedStmt :=
  ⟨branch.loc, branch.condition.spelled full, spelledBlock full branch.body⟩

theorem spelledBranches_eq_map (branches : List (Branch TypedExpr TypedStmt)) :
    spelledBranches full branches = branches.map (Branch.spelled full) :=
  eq_map_of_cons rfl fun _ _ => rfl

@[simp] theorem TypedTypeExpr.type_spelled (type : TypedTypeExpr) :
    (type.spelled full).type = type.type := by
  cases type <;> rfl

@[simp] theorem TypedExpr.type_spelled (e : TypedExpr) : (e.spelled full).type = e.type := by
  induction e using TypedExpr.induct with
  | paren loc inner ih => exact ih
  | literal | binding | field | call | init | unary | binary => rfl

theorem map_type_spelledTypes (types : List TypedTypeExpr) :
    (spelledTypes full types).map (·.type) = types.map (·.type) := by
  simp [spelledTypes_eq_map, Function.comp_def]

theorem map_type_spelledResult (result : Option TypedTypeExpr) :
    (spelledResult full result).map (·.type) = result.map (·.type) := by
  cases result <;> simp [spelledResult]

@[simp] theorem TypedItem.name_spelled (item : TypedItem) : (item.spelled full).name = item.name := by
  cases item <;> rfl

@[simp] theorem TypedItem.isUse_erase (item : TypedItem) : item.erase.isUse = item.isUse := by
  cases item <;> rfl

@[simp] theorem TypedItem.isUse_spelled (item : TypedItem) : (item.spelled full).isUse = item.isUse := by
  cases item <;> rfl

@[simp] theorem TypedItem.name_erase (item : TypedItem) : item.erase.name = item.name := by
  cases item <;> rfl

/-- The signature of a function does not depend on how its types are spelled. -/
theorem Signature.ofHeader_spelled (owner : String) (loc : Location) (isBuiltin : Bool)
    (header : Header TypedTypeExpr) :
    Signature.ofHeader owner loc isBuiltin (header.spelled full) = Signature.ofHeader owner loc isBuiltin header := by
  simp [Signature.ofHeader, Header.typeParamsOf, Header.spelled, Member.spelled, map_type_spelledResult,
    Function.comp_def]

theorem paramLocals_spelled (params : List (Member TypedTypeExpr)) :
    paramLocals (params.map (Member.spelled full)) = paramLocals params := by
  simp [paramLocals, Member.spelled, Function.comp_def]

theorem Path.spelled_false (path : Path) (item : Option ItemName) : path.spelled false item = path := by
  cases item <;> rfl

theorem TypedTypeExpr.spelled_false (type : TypedTypeExpr) : type.spelled false = type := by
  induction type using TypedTypeExpr.induct with
  | named loc path args type ih =>
    rw [TypedTypeExpr.spelled, Path.spelled_false, spelledTypes_eq_map, map_eq_self_of_mem ih]
  | array loc element length type ih => rw [TypedTypeExpr.spelled, ih]
  | function loc params result type ih ihResult =>
    rw [TypedTypeExpr.spelled, spelledTypes_eq_map, map_eq_self_of_mem ih]
    cases result with
    | none => rfl
    | some result => rw [spelledResult, ihResult result rfl]

theorem spelledResult_false (result : Option TypedTypeExpr) : spelledResult false result = result := by
  cases result with
  | none => rfl
  | some type => rw [spelledResult, type.spelled_false]

theorem TypedExpr.spelled_false (e : TypedExpr) : e.spelled false = e := by
  induction e using TypedExpr.induct with
  | literal | field => rfl
  | binding loc path referent => rw [TypedExpr.spelled, Path.spelled_false]
  | call loc callee typeArgs args target type ih =>
    rw [TypedExpr.spelled, Path.spelled_false, spelledTypes_eq_map, map_id'' TypedTypeExpr.spelled_false,
      spelledExprs_eq_map, map_eq_self_of_mem ih]
  | init loc path fields struct ih =>
    have hfields : ∀ init ∈ fields, init.spelled false = init := fun init hinit => by
      rw [FieldInit.spelled, ih init hinit]
    rw [TypedExpr.spelled, Path.spelled_false, spelledInits_eq_map, map_eq_self_of_mem hfields]
  | unary loc op operand type ih => rw [TypedExpr.spelled, ih]
  | binary loc op left right type ihLeft ihRight => rw [TypedExpr.spelled, ihLeft, ihRight]
  | paren loc inner ih => rw [TypedExpr.spelled, ih]

theorem spelledBlock_false_of_mem {body : Block TypedStmt} (h : ∀ stmt ∈ body.statements, stmt.spelled false = stmt) :
    spelledBlock false body = body := by
  obtain ⟨loc, statements⟩ := body
  rw [spelledBlock, spelledStmts_eq_map, map_eq_self_of_mem h]

theorem TypedStmt.spelled_false (stmt : TypedStmt) : stmt.spelled false = stmt := by
  induction stmt using TypedStmt.induct with
  | block body ih => rw [TypedStmt.spelled, spelledBlock_false_of_mem ih]
  | letBinding symbol type value => rw [TypedStmt.spelled, type.spelled_false, value.spelled_false]
  | ifChain loc branches otherwise ih ihElse =>
    have hbranches : ∀ branch ∈ branches, branch.spelled false = branch := fun branch hbranch => by
      rw [Branch.spelled, branch.condition.spelled_false, spelledBlock_false_of_mem (ih branch hbranch)]
    rw [TypedStmt.spelled, spelledBranches_eq_map, map_eq_self_of_mem hbranches]
    cases otherwise with
    | none => rfl
    | some body => rw [spelledElse, spelledBlock_false_of_mem (ihElse body rfl)]
  | whileLoop loc condition body ih =>
    rw [TypedStmt.spelled, condition.spelled_false, spelledBlock_false_of_mem ih]
  | returnValue loc value => cases value <;> simp [TypedStmt.spelled, TypedExpr.spelled_false]
  | breakLoop | continueLoop => rfl
  | assign loc target fields value | expression loc value => rw [TypedStmt.spelled, value.spelled_false]

theorem spelledBlock_false (body : Block TypedStmt) : spelledBlock false body = body :=
  spelledBlock_false_of_mem fun stmt _ => stmt.spelled_false

theorem Member.spelled_false : Member.spelled false = id := by
  funext member
  rw [Member.spelled, TypedTypeExpr.spelled_false, id]

/-- Spelling paths as they were written keeps an item. -/
theorem TypedItem.spelled_false (item : TypedItem) : item.spelled false = item := by
  cases item with
  | use | eclipsed | opaqueType | other => rfl
  | struct loc name fields => rw [TypedItem.spelled, Member.spelled_false, map_id]
  | function loc header body signature =>
    rw [TypedItem.spelled, Header.spelled, Member.spelled_false, map_id, spelledResult_false, spelledBlock_false]
  | builtin loc header signature =>
    rw [TypedItem.spelled, Header.spelled, Member.spelled_false, map_id, spelledResult_false]

/-- A module that is not to be spelled in full is left alone. -/
theorem TypedModule.spelled_false (module_ : TypedModule) : module_.spelled false = module_ := by
  have hitem : TypedItem.spelled false = id := funext TypedItem.spelled_false
  have hkept : module_.items.filter (fun item => !(false && item.isUse)) = module_.items :=
    filter_eq_self.2 fun _ _ => rfl
  rw [TypedModule.spelled, hitem, map_id, hkept]

mutual

theorem TypedStmt.returns_spelled : (stmt : TypedStmt) → (stmt.spelled full).erase.returns = stmt.erase.returns
  | .block body => by
    simp only [TypedStmt.spelled, TypedStmt.erase, Stmt.returns, blockReturns_spelledBlock body]
  | .ifChain loc branches otherwise => by
    simp only [TypedStmt.spelled, TypedStmt.erase, Stmt.returns, branchesReturn_spelledBranches branches,
      otherwiseReturns_spelledElse otherwise]
  | .letBinding _ _ _ | .assign _ _ _ _ | .whileLoop _ _ _ | .returnValue _ _ | .breakLoop _ | .continueLoop _
  | .expression _ _ => by simp only [TypedStmt.spelled, TypedStmt.erase, Stmt.returns]

/-- Whether a block returns does not depend on how the paths in it are spelled. -/
theorem blockReturns_spelledBlock : (body : Block TypedStmt) →
    blockReturns (eraseBlock (spelledBlock full body)) = blockReturns (eraseBlock body)
  | ⟨loc, statements⟩ => by simp only [spelledBlock, eraseBlock, blockReturns, anyReturns_spelledStmts statements]

theorem anyReturns_spelledStmts : (stmts : List TypedStmt) →
    anyReturns (eraseStmts (spelledStmts full stmts)) = anyReturns (eraseStmts stmts)
  | [] => by simp only [spelledStmts]
  | stmt :: stmts => by
    simp only [spelledStmts, eraseStmts, anyReturns, stmt.returns_spelled, anyReturns_spelledStmts stmts]

theorem branchesReturn_spelledBranches : (branches : List (Branch TypedExpr TypedStmt)) →
    branchesReturn (eraseBranches (spelledBranches full branches)) = branchesReturn (eraseBranches branches)
  | [] => by simp only [spelledBranches]
  | ⟨loc, condition, body⟩ :: branches => by
    simp only [spelledBranches, eraseBranches, branchesReturn, blockReturns_spelledBlock body,
      branchesReturn_spelledBranches branches]

theorem otherwiseReturns_spelledElse : (otherwise : Option (Block TypedStmt)) →
    otherwiseReturns (eraseElse (spelledElse full otherwise)) = otherwiseReturns (eraseElse otherwise)
  | none => by simp only [spelledElse]
  | some body => by simp only [spelledElse, eraseElse, otherwiseReturns, blockReturns_spelledBlock body]

end

end Smpl
