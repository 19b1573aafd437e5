import Smpl.Proofs.Checker.Program
import Smpl.Proofs.Relocate.Expression

namespace Smpl

open List

variable (move : Location → Location)

mutual

/-- Moves a checked statement, with the declarations that its names stand for. -/
def TypedStmt.relocate : TypedStmt → TypedStmt
  | .block body => .block (relocateTypedBlock body)
  | .letBinding symbol type value => .letBinding (symbol.relocate move) (type.relocate move) (value.relocate move)
  | .assign loc target fields value => .assign (move loc) (target.relocate move) fields (value.relocate move)
  | .ifChain loc branches otherwise =>
    .ifChain (move loc) (relocateTypedBranches branches) (relocateTypedElse otherwise)
  | .whileLoop loc condition body => .whileLoop (move loc) (condition.relocate move) (relocateTypedBlock body)
  | .returnValue loc value => .returnValue (move loc) (value.map (TypedExpr.relocate move))
  | .breakLoop loc => .breakLoop (move loc)
  | .continueLoop loc => .continueLoop (move loc)
  | .expression loc value => .expression (move loc) (value.relocate move)

def relocateTypedBlock : Block TypedStmt → Block TypedStmt
  | ⟨loc, statements⟩ => ⟨move loc, relocateTypedStmts statements⟩

def relocateTypedStmts : List TypedStmt → List TypedStmt
  | [] => []
  | stmt :: stmts => stmt.relocate :: relocateTypedStmts stmts

def relocateTypedBranches :
    List (Branch TypedExpr TypedStmt) → List (Branch TypedExpr TypedStmt)
  | [] => []
  | ⟨loc, condition, body⟩ :: branches =>
    ⟨move loc, condition.relocate move, relocateTypedBlock body⟩ :: relocateTypedBranches branches

def relocateTypedElse : Option (Block TypedStmt) → Option (Block TypedStmt)
  | none => none
  | some body => some (relocateTypedBlock body)

end

/-- Moves a checked item. -/
def TypedItem.relocate : TypedItem → TypedItem
  | .use loc name => .use (move loc) name
  | .struct loc name fields => .struct (move loc) name (fields.map (Member.relocate move (TypedTypeExpr.relocate move)))
  | .eclipsed loc name fields => .eclipsed (move loc) name (fields.map (Member.relocate move (TypeExpr.relocate move)))
  | .opaqueType loc name typeParams => .opaqueType (move loc) name typeParams
  | .function loc header body signature =>
    .function (move loc) (header.relocate move (TypedTypeExpr.relocate move)) (relocateTypedBlock move body)
      (signature.relocate move)
  | .builtin loc header signature =>
    .builtin (move loc) (header.relocate move (TypedTypeExpr.relocate move)) (signature.relocate move)
  | .other loc name => .other (move loc) name

def TypedModule.relocate (module_ : TypedModule) : TypedModule :=
  { module_ with loc := move module_.loc, items := module_.items.map (TypedItem.relocate move) }

/-- Moves everything in a checked program. -/
def Program.relocate (program : Program) : Program where
  registry := program.registry.relocate move
  modules := program.modules.map (TypedModule.relocate move)
  entry := program.entry

variable {move}

section
variable (stmt : Stmt) (body : Block Stmt)

theorem blockReturns_eq_of_forall {body : Block Stmt}
    (h : ∀ stmt ∈ body.statements, (stmt.relocate move).returns = stmt.returns) :
    blockReturns (relocateBlock move body) = blockReturns body := by
  obtain ⟨loc, stmts⟩ := body
  rw [relocateBlock, blockReturns, blockReturns]
  exact forall_mem_induct stmts h rfl fun _ _ hfirst ih => by rw [relocateStmts, anyReturns, anyReturns, hfirst, ih]

theorem Stmt.returns_relocate : (stmt.relocate move).returns = stmt.returns := by
  induction stmt using Stmt.induct with
  | block body ih => exact blockReturns_eq_of_forall ih
  | ifChain loc branches otherwise ih ihElse =>
    rw [Stmt.relocate, Stmt.returns, Stmt.returns]
    congr 1
    · exact forall_mem_induct branches ih rfl fun _ _ hfirst ih => by
        rw [relocateBranches, branchesReturn, branchesReturn, blockReturns_eq_of_forall hfirst, ih]
    · cases otherwise with
      | none => rfl
      | some body => exact blockReturns_eq_of_forall (ihElse body rfl)
  | _ => rfl

end

namespace Context

variable (ctx : Context)

theorem condition_relocate (scope : Scope) (e : Expr) :
    (ctx.relocate move).condition (scope.relocate move) (e.relocate move) =
      relocateOutcome move (TypedExpr.relocate move) (ctx.condition scope e) := by
  rw [condition, condition]
  refine bind_relocate (ctx.expr_relocate scope e) fun checked => ?_
  rw [TypedExpr.type_relocate, TypedExpr.loc_relocate]
  exact bind_relocate (expectType_relocate .condition .bool checked.type checked.loc) fun _ => rfl

theorem returned_relocate (scope : Scope) (loc : Location) (value : Option Expr) :
    (ctx.relocate move).returned (scope.relocate move) (move loc) (value.map (Expr.relocate move)) =
      relocateOutcome move (Option.map (TypedExpr.relocate move)) (ctx.returned scope loc value) := by
  cases value with
  | none =>
    exact bind_relocate (expectType_relocate (.missingReturnValue ctx.functionName) ctx.result .unit loc) fun _ => rfl
  | some value =>
    rw [Option.map_some, returned, returned]
    refine bind_relocate (ctx.expr_relocate scope value) fun value => ?_
    have hresult : (ctx.relocate move).result = ctx.result := rfl
    rw [TypedExpr.type_relocate, TypedExpr.loc_relocate, hresult]
    split
    · rfl
    · exact bind_relocate
        (expectType_relocate (.returnValue ctx.functionName) ctx.result value.type value.loc) fun _ => rfl

/-- Moves a checked statement with the scope after it. -/
def relocateStep (move : Location → Location) (step : TypedStmt × Scope) : TypedStmt × Scope :=
  (step.1.relocate move, step.2.relocate move)

theorem stmts_relocate {inLoop : Bool} {stmts : List Stmt}
    (h : ∀ stmt ∈ stmts, ∀ scope, (ctx.relocate move).stmt inLoop (Scope.relocate move scope) (stmt.relocate move) =
      relocateOutcome move (relocateStep move) (ctx.stmt inLoop scope stmt)) (scope : Scope) :
    (ctx.relocate move).stmts inLoop (scope.relocate move) (relocateStmts move stmts) =
      relocateOutcome move (relocateTypedStmts move) (ctx.stmts inLoop scope stmts) := by
  induction stmts generalizing scope with
  | nil => rfl
  | cons stmt stmts ih =>
    obtain ⟨hfirst, hothers⟩ := forall_mem_cons.1 h
    rw [relocateStmts, Context.stmts, Context.stmts]
    refine bind_relocate (hfirst scope) fun step => ?_
    exact bind_relocate (ih hothers step.2) fun _ => rfl

theorem block_relocate_of_forall {inLoop : Bool} {body : Block Stmt}
    (h : ∀ stmt ∈ body.statements, ∀ scope, (ctx.relocate move).stmt inLoop (Scope.relocate move scope)
      (stmt.relocate move) = relocateOutcome move (relocateStep move) (ctx.stmt inLoop scope stmt)) (scope : Scope) :
    (ctx.relocate move).block inLoop (scope.relocate move) (relocateBlock move body) =
      relocateOutcome move (relocateTypedBlock move) (ctx.block inLoop scope body) := by
  rw [relocateBlock, Context.block, Context.block]
  exact bind_relocate (ctx.stmts_relocate h scope.push) fun _ => rfl

theorem branches_relocate_of_forall {inLoop : Bool} {branches : List (Branch Expr Stmt)}
    (h : ∀ branch ∈ branches, ∀ stmt ∈ branch.body.statements, ∀ scope,
      (ctx.relocate move).stmt inLoop (Scope.relocate move scope) (stmt.relocate move) =
        relocateOutcome move (relocateStep move) (ctx.stmt inLoop scope stmt)) (scope : Scope) :
    (ctx.relocate move).branches inLoop (scope.relocate move) (relocateBranches move branches) =
      relocateOutcome move (relocateTypedBranches move) (ctx.branches inLoop scope branches) := by
  refine forall_mem_induct branches h rfl fun branch branches hfirst ih => ?_
  rw [relocateBranches, Context.branches, Context.branches]
  refine bind_relocate (ctx.condition_relocate scope branch.condition) fun condition => ?_
  refine bind_relocate (ctx.block_relocate_of_forall hfirst scope) fun body => ?_
  exact bind_relocate ih fun _ => rfl

/-- A statement is checked whatever the places in it, in its scope and in its program are. -/
theorem stmt_relocate (stmt : Stmt) (inLoop : Bool) (scope : Scope) :
    (ctx.relocate move).stmt inLoop (scope.relocate move) (stmt.relocate move) =
      relocateOutcome move (relocateStep move) (ctx.stmt inLoop scope stmt) := by
  induction stmt using Stmt.induct generalizing inLoop scope with
  | block body ih =>
    rw [Stmt.relocate, Context.stmt, Context.stmt]
    exact bind_relocate (ctx.block_relocate_of_forall (fun stmt hstmt => ih stmt hstmt inLoop) scope) fun _ => rfl
  | letBinding loc name type value =>
    rw [Stmt.relocate, Context.stmt, Context.stmt]
    refine bind_relocate (ctx.typeScope.resolve_relocate type) fun type => ?_
    refine bind_relocate (ctx.expr_relocate scope value) fun value => ?_
    rw [TypedTypeExpr.type_relocate, TypedExpr.type_relocate, TypedExpr.loc_relocate]
    refine bind_relocate (expectType_relocate (.initializer name) type.type value.type value.loc) fun _ => ?_
    exact bind_relocate (scope.declare_relocate ⟨name, type.type, loc, false⟩) fun _ => rfl
  | assign loc target fields value =>
    rw [Stmt.relocate, Context.stmt, Context.stmt]
    refine bind_relocate (ctx.binding_relocate scope target loc) fun symbol => ?_
    refine bind_relocate (ctx.chainType_relocate loc symbol.type fields) fun type => ?_
    refine bind_relocate (ctx.expr_relocate scope value) fun value => ?_
    rw [TypedExpr.type_relocate, TypedExpr.loc_relocate]
    exact bind_relocate
      (expectType_relocate (.assignment (".".intercalate (target :: fields))) type value.type value.loc) fun _ => rfl
  | ifChain loc branches otherwise ih ihElse =>
    rw [Stmt.relocate, Context.stmt, Context.stmt]
    have hbranches := ctx.branches_relocate_of_forall
      (fun branch hbranch stmt hstmt => ih branch hbranch stmt hstmt inLoop)
      scope
    refine bind_relocate hbranches fun branches => ?_
    have helse : (ctx.relocate move).otherwise inLoop (scope.relocate move) (relocateElse move otherwise) =
        relocateOutcome move (relocateTypedElse move) (ctx.otherwise inLoop scope otherwise) := by
      cases otherwise with
      | none => rfl
      | some body =>
        exact bind_relocate (ctx.block_relocate_of_forall (fun stmt hstmt => ihElse body rfl stmt hstmt inLoop) scope)
          fun _ => rfl
    exact bind_relocate helse fun _ => rfl
  | whileLoop loc condition body ih =>
    rw [Stmt.relocate, Context.stmt, Context.stmt]
    refine bind_relocate (ctx.condition_relocate scope condition) fun condition => ?_
    exact bind_relocate (ctx.block_relocate_of_forall (fun stmt hstmt => ih stmt hstmt true) scope) fun _ => rfl
  | returnValue loc value => exact bind_relocate (ctx.returned_relocate scope loc value) fun _ => rfl
  | breakLoop loc => cases inLoop <;> rfl
  | continueLoop loc => cases inLoop <;> rfl
  | expression loc value => exact bind_relocate (ctx.expr_relocate scope value) fun _ => rfl
  | unknown node => cases node <;> rfl

theorem body_relocate (loc : Location) (params : List Local) (body : Block Stmt) :
    (ctx.relocate move).body (move loc) (params.map (Local.relocate move)) (relocateBlock move body) =
      relocateOutcome move (relocateTypedBlock move) (ctx.body loc params body) := by
  rw [Context.body, Context.body, blockReturns_eq_of_forall fun stmt _ => stmt.returns_relocate]
  refine bind_relocate (foldlM_relocate Scope.declare_relocate params Scope.empty) fun scope => ?_
  refine bind_relocate (ctx.block_relocate_of_forall (fun stmt _ => ctx.stmt_relocate stmt false) scope)
    fun checked => ?_
  have hresult : (ctx.relocate move).result = ctx.result := rfl
  rw [hresult]
  split <;> rfl

end Context

namespace Registry

variable (registry : Registry)

theorem checkItem_relocate (moduleName : String) (item : Item) :
    (registry.relocate move).checkItem moduleName (item.relocate move) =
      relocateOutcome move (TypedItem.relocate move) (registry.checkItem moduleName item) := by
  cases item with
  | struct loc name fields =>
    rw [Item.relocate, checkItem, checkItem]
    refine bind_relocate (Table.get_relocate registry.types.structs ⟨moduleName, name⟩) fun declared => ?_
    have hname : (declared.relocate move).name = declared.name := rfl
    rw [hname]
    split
    · rfl
    · exact bind_relocate
        (TypeScope.fields_relocate ⟨registry.graph, registry.types, moduleName, []⟩ name [] fields) fun _ => rfl
  | function loc header body =>
    rw [Item.relocate, checkItem, checkItem]
    refine bind_relocate
      (Graph.checkHeader_relocate registry.graph registry.types moduleName loc header) fun header => ?_
    have hparams : paramLocals (header.relocate move (TypedTypeExpr.relocate move)).params =
        (paramLocals header.params).map (Local.relocate move) := by
      simp [paramLocals, Header.relocate, Member.relocate, Local.relocate, Function.comp_def]
    simp only [Signature.ofHeader_relocate, hparams]
    exact bind_relocate
      (Context.body_relocate (registry.bodyContext moduleName (Signature.ofHeader moduleName loc false header)) loc
        (paramLocals header.params) body) fun _ => rfl
  | builtin loc header =>
    rw [Item.relocate, checkItem, checkItem]
    refine bind_relocate
      (Graph.checkHeader_relocate registry.graph registry.types moduleName loc header) fun header => ?_
    rw [Signature.ofHeader_relocate]
    rfl
  | use | opaqueType | other => rfl

/-- Checking a moved module gives the checked module, moved. -/
theorem checkModule_relocate (module_ : GraphModule) :
    (registry.relocate move).checkModule (module_.relocate move) =
      relocateOutcome move (TypedModule.relocate move) (registry.checkModule module_) := by
  rw [checkModule, checkModule]
  exact bind_relocate (mapM_relocate fun item _ => registry.checkItem_relocate module_.name item) fun _ => rfl

end Registry

namespace Graph

variable (graph : Graph)

theorem entryPoints_relocate (signatures : List Signature) :
    (graph.relocate move).entryPoints (signatures.map (Signature.relocate move)) =
      (graph.entryPoints signatures).map fun point => (point.1, point.2.relocate move) := by
  rw [entryPoints, entryPoints, userModules_relocate, filterMap_map, map_filterMap]
  refine congrArg (List.filterMap · graph.userModules) (funext fun module_ => ?_)
  simp only [Function.comp_apply, GraphModule.item?_relocate, GraphModule.name_relocate]
  cases module_.item? entryName with
  | none => rfl
  | some item =>
    cases item with
    | function =>
      simp only [Option.map_some, Item.relocate, find?_map, Option.map_map]
      rfl
    | _ => rfl

/-- The entry point stays in the same module. -/
theorem entryModule_relocate (signatures : List Signature) :
    (graph.relocate move).entryModule (signatures.map (Signature.relocate move)) =
      relocateOutcome move id (graph.entryModule signatures) := by
  rw [entryModule, entryModule, entryPoints_relocate]
  match graph.entryPoints signatures with
  | [] => rfl
  | [(name, signature)] =>
    have hgeneric : (signature.relocate move).isGeneric = signature.isGeneric := rfl
    have htype : (signature.relocate move).type = signature.type := rfl
    simp only [map_cons, map_nil, hgeneric, htype]
    split
    · rfl
    · split <;> rfl
  | _ :: _ :: _ =>
    simp only [map_cons, map_map]
    rfl

end Graph

/-- What a program is checked to does not depend on the places in it: they only come along. -/
theorem Graph.check_relocate (graph : Graph) :
    (graph.relocate move).check.outcome = relocateOutcome move (Program.relocate move) graph.check.outcome := by
  rw [Graph.outcome_check, Graph.outcome_check]
  refine bind_relocate (Graph.declaredTypes_relocate graph) fun types => ?_
  refine bind_relocate (Table.mapM_relocate types.structs (Graph.structInfo_relocate graph types)) fun structs => ?_
  refine bind_relocate (Graph.signatures_relocate graph types) fun signatures => ?_
  rw [functionTable_relocate]
  refine bind_relocate (Graph.entryModule_relocate graph signatures) fun entry => ?_
  exact bind_relocate (mapM_relocate fun module_ _ =>
    Registry.checkModule_relocate ⟨graph, types, structs, functionTable signatures⟩ module_) fun _ => rfl

end Smpl
