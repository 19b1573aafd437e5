import Smpl.Proofs.Generic.Subst
import Smpl.Proofs.Relocate.Program
import Smpl.Rust.Crate

namespace Smpl

open List

variable {move : Location → Location}

theorem TypedExpr.isOperation_relocate (e : TypedExpr) : (e.relocate move).isOperation = e.isOperation := by
  cases e <;> rfl

theorem TypedExpr.showsInit_relocate (e : TypedExpr) : (e.relocate move).showsInit = e.showsInit := by
  induction e using TypedExpr.induct with
  | call loc callee typeArgs args target type ih =>
    rw [TypedExpr.relocate, TypedExpr.showsInit, TypedExpr.showsInit]
    exact forall_mem_induct args ih rfl fun _ _ hfirst ih => by
      rw [relocateTypedExprs, TypedExpr.anyShowsInit, TypedExpr.anyShowsInit, hfirst, ih]
  | unary loc op operand type ih => exact ih
  | binary loc op left right type ihLeft ihRight =>
    rw [TypedExpr.relocate, TypedExpr.showsInit, TypedExpr.showsInit, ihLeft, ihRight]
  | paren loc inner ih => exact ih
  | _ => rfl

theorem blockBindings_relocate_of_forall {body : Block TypedStmt}
    (h : ∀ stmt ∈ body.statements, (stmt.relocate move).bindings = stmt.bindings.map (Local.relocate move)) :
    blockBindings (relocateTypedBlock move body) = (blockBindings body).map (Local.relocate move) := by
  obtain ⟨loc, stmts⟩ := body
  rw [relocateTypedBlock, blockBindings, blockBindings]
  exact forall_mem_induct stmts h rfl fun _ _ hfirst ih => by
    rw [relocateTypedStmts, allBindings, allBindings, hfirst, ih, map_append]

theorem TypedStmt.bindings_relocate (stmt : TypedStmt) :
    (stmt.relocate move).bindings = stmt.bindings.map (Local.relocate move) := by
  induction stmt using TypedStmt.induct with
  | block body ih => exact blockBindings_relocate_of_forall ih
  | ifChain loc branches otherwise ih ihElse =>
    rw [TypedStmt.relocate, TypedStmt.bindings, TypedStmt.bindings, map_append]
    congr 1
    · exact forall_mem_induct branches ih rfl fun _ _ hfirst ih => by
        rw [relocateTypedBranches, branchBindings, branchBindings, blockBindings_relocate_of_forall hfirst, ih,
          map_append]
    · cases otherwise with
      | none => rfl
      | some body => exact blockBindings_relocate_of_forall (ihElse body rfl)
  | whileLoop loc condition body ih => exact blockBindings_relocate_of_forall ih
  | _ => rfl

theorem blockBindings_relocate (body : Block TypedStmt) :
    blockBindings (relocateTypedBlock move body) = (blockBindings body).map (Local.relocate move) :=
  blockBindings_relocate_of_forall fun stmt _ => stmt.bindings_relocate

namespace Rust

namespace Setting

variable (setting : Setting)

theorem types_relocate {loc : Option Location} {types : List Ty}
    (h : ∀ type ∈ types, setting.type (loc.map move) type = relocateOutcome move id (setting.type loc type)) :
    setting.types (loc.map move) types = relocateOutcome move id (setting.types loc types) :=
  forall_mem_induct types h rfl fun _ _ hfirst ih => bind_relocate hfirst fun _ => bind_relocate ih fun _ => rfl

theorem type_relocate (loc : Option Location) (type : Ty) :
    setting.type (loc.map move) type = relocateOutcome move id (setting.type loc type) := by
  induction type using Ty.induct with
  | primitive type => cases type <;> rfl
  | struct name => rfl
  | opaqueType name args ih =>
    unfold Setting.type
    split
    · cases args with
      | nil => rfl
      | cons arg args => exact bind_relocate (ih arg mem_cons_self) fun _ => rfl
    · rfl
  | param name => rfl
  | array element length ih => exact bind_relocate ih fun _ => rfl
  | function params result ih ihResult =>
    rw [Setting.type, Setting.type]
    refine bind_relocate (setting.types_relocate ih) fun params => ?_
    dsimp only
    split
    · rfl
    · exact bind_relocate ihResult fun _ => rfl
  | reference target ih => exact bind_relocate ih fun _ => rfl

theorem referent_relocate (loc : Location) (referent : Referent) :
    setting.referent (move loc) (referent.relocate move) = relocateOutcome move id (setting.referent loc referent) := by
  cases referent with
  | binding symbol => rfl
  | function signature =>
    have hbuiltin : (signature.relocate move).isBuiltin = signature.isBuiltin := rfl
    rw [Referent.relocate, Setting.referent, Setting.referent, hbuiltin]
    split <;> rfl

theorem builtinCall_relocate (loc : Location) (name : ItemName) (typeArgs : List Ty) (args : List TypedExpr)
    (texts : List String) :
    setting.builtinCall (move loc) name typeArgs (relocateTypedExprs move args) texts =
      relocateOutcome move id (setting.builtinCall loc name typeArgs args texts) := by
  unfold Setting.builtinCall
  split
  · rfl
  · split
    · cases texts <;> rfl
    · split
      · cases typeArgs with
        | nil => rfl
        | cons type types => exact bind_relocate (setting.type_relocate (some loc) type) fun _ => rfl
      · split
        · cases args with
          | nil => rfl
          | cons arg args =>
            cases texts with
            | nil => rfl
            | cons text others =>
              simp only [relocateTypedExprs, TypedExpr.isOperation_relocate]
              split
              · cases others <;> rfl
              · rfl
        · rfl

theorem call_relocate (loc : Location) (target : Referent) (typeArgs : List Ty) (args : List TypedExpr)
    (texts : List String) :
    setting.call (move loc) (target.relocate move) typeArgs (relocateTypedExprs move args) texts =
      relocateOutcome move id (setting.call loc target typeArgs args texts) := by
  cases target with
  | binding symbol => rfl
  | function signature =>
    have hbuiltin : (signature.relocate move).isBuiltin = signature.isBuiltin := rfl
    rw [Referent.relocate, Setting.call, Setting.call, hbuiltin]
    split
    · exact setting.builtinCall_relocate loc signature.name typeArgs args texts
    · have htypes := setting.types_relocate fun type (_ : type ∈ typeArgs) =>
        @type_relocate move setting (some loc) type
      exact bind_relocate htypes fun _ => rfl

theorem exprs_relocate {exprs : List TypedExpr}
    (h : ∀ e ∈ exprs, setting.expr (e.relocate move) = relocateOutcome move id (setting.expr e)) :
    setting.exprs (relocateTypedExprs move exprs) = relocateOutcome move id (setting.exprs exprs) :=
  forall_mem_induct exprs h rfl fun _ _ hfirst ih => bind_relocate hfirst fun _ => bind_relocate ih fun _ => rfl

theorem inits_relocate {inits : List (FieldInit TypedExpr)}
    (h : ∀ init ∈ inits, setting.expr (init.value.relocate move) = relocateOutcome move id (setting.expr init.value)) :
    setting.inits (relocateTypedInits move inits) = relocateOutcome move id (setting.inits inits) :=
  forall_mem_induct inits h rfl fun _ _ hfirst ih => bind_relocate hfirst fun _ => bind_relocate ih fun _ => rfl

theorem operand_relocate (e : TypedExpr) (text : String) : operand (e.relocate move) text = operand e text := by
  cases e <;> rfl

theorem unaryText_relocate (op : UnaryOp) (e : TypedExpr) (text : String) (type : Ty) :
    unaryText op (e.relocate move) text type = unaryText op e text type := by
  have hplace : place? (e.relocate move) = place? e := by
    cases e with
    | binding loc path referent => cases referent <;> rfl
    | _ => rfl
  cases op <;> simp only [unaryText, hplace, operand_relocate]

/-- The text of an expression says nothing about places. -/
theorem expr_relocate (e : TypedExpr) : setting.expr (e.relocate move) = relocateOutcome move id (setting.expr e) := by
  induction e using TypedExpr.induct with
  | literal loc value => rfl
  | binding loc path referent => exact setting.referent_relocate loc referent
  | field loc root fields type => rfl
  | call loc callee typeArgs args target type ih =>
    rw [TypedExpr.relocate, Setting.expr, Setting.expr, map_type_relocate]
    exact bind_relocate (setting.exprs_relocate ih) fun texts =>
      setting.call_relocate loc target (typeArgs.map (·.type)) args texts
  | init loc path fields struct ih =>
    rw [TypedExpr.relocate, Setting.expr, Setting.expr]
    refine bind_relocate (setting.inits_relocate ih) fun texts => ?_
    rw [id]
    split <;> rfl
  | unary loc op operand type ih =>
    rw [TypedExpr.relocate, Setting.expr, Setting.expr]
    refine bind_relocate ih fun text => ?_
    rw [unaryText_relocate]
    rfl
  | binary loc op left right type ihLeft ihRight =>
    rw [TypedExpr.relocate, Setting.expr, Setting.expr]
    refine bind_relocate ihLeft fun leftText => bind_relocate ihRight fun rightText => ?_
    rw [operand_relocate, operand_relocate]
    rfl
  | paren loc inner ih => exact bind_relocate ih fun _ => rfl

theorem condition_relocate (e : TypedExpr) :
    setting.condition (e.relocate move) = relocateOutcome move id (setting.condition e) := by
  rw [Setting.condition, Setting.condition, TypedExpr.showsInit_relocate]
  exact bind_relocate (setting.expr_relocate e) fun _ => rfl

theorem block_relocate_of_forall {body : Block TypedStmt}
    (h : ∀ stmt ∈ body.statements, setting.stmt (stmt.relocate move) = relocateOutcome move id (setting.stmt stmt)) :
    setting.block (relocateTypedBlock move body) = relocateOutcome move id (setting.block body) := by
  obtain ⟨loc, stmts⟩ := body
  have hstmts : setting.stmts (relocateTypedStmts move stmts) = relocateOutcome move id (setting.stmts stmts) :=
    forall_mem_induct stmts h rfl fun _ _ hfirst ih => bind_relocate hfirst fun _ => bind_relocate ih fun _ => rfl
  exact bind_relocate hstmts fun _ => rfl

theorem branches_relocate_of_forall {branches : List (Branch TypedExpr TypedStmt)}
    (h : ∀ branch ∈ branches, ∀ stmt ∈ branch.body.statements,
      setting.stmt (stmt.relocate move) = relocateOutcome move id (setting.stmt stmt)) (opening : String) :
    setting.branches opening (relocateTypedBranches move branches) =
      relocateOutcome move id (setting.branches opening branches) := by
  induction branches generalizing opening with
  | nil => rfl
  | cons branch branches ih =>
    obtain ⟨hfirst, hothers⟩ := forall_mem_cons.1 h
    rw [relocateTypedBranches, Setting.branches, Setting.branches]
    refine bind_relocate (setting.condition_relocate branch.condition) fun condition => ?_
    refine bind_relocate (setting.block_relocate_of_forall hfirst) fun lines => ?_
    exact bind_relocate (ih hothers _) fun _ => rfl

/-- The text of a statement says nothing about places. -/
theorem stmt_relocate (stmt : TypedStmt) :
    setting.stmt (stmt.relocate move) = relocateOutcome move id (setting.stmt stmt) := by
  induction stmt using TypedStmt.induct with
  | block body ih => exact bind_relocate (setting.block_relocate_of_forall ih) fun _ => rfl
  | letBinding symbol type value =>
    rw [TypedStmt.relocate, Setting.stmt, Setting.stmt, TypedTypeExpr.type_relocate]
    refine bind_relocate (setting.type_relocate (some symbol.loc) type.type) fun type => ?_
    exact bind_relocate (setting.expr_relocate value) fun _ => rfl
  | assign loc target fields value => exact bind_relocate (setting.expr_relocate value) fun _ => rfl
  | ifChain loc branches otherwise ih ihElse =>
    rw [TypedStmt.relocate, Setting.stmt, Setting.stmt]
    refine bind_relocate (setting.branches_relocate_of_forall ih _) fun lines => ?_
    have helse : setting.otherwise (relocateTypedElse move otherwise) =
        relocateOutcome move id (setting.otherwise otherwise) := by
      cases otherwise with
      | none => rfl
      | some body => exact bind_relocate (setting.block_relocate_of_forall (ihElse body rfl)) fun _ => rfl
    exact bind_relocate helse fun _ => rfl
  | whileLoop loc condition body ih =>
    rw [TypedStmt.relocate, Setting.stmt, Setting.stmt]
    refine bind_relocate (setting.condition_relocate condition) fun condition => ?_
    exact bind_relocate (setting.block_relocate_of_forall ih) fun _ => rfl
  | returnValue loc value =>
    cases value with
    | none => rfl
    | some value => exact bind_relocate (setting.expr_relocate value) fun _ => rfl
  | breakLoop loc => rfl
  | continueLoop loc => rfl
  | expression loc value => exact bind_relocate (setting.expr_relocate value) fun _ => rfl

end Setting

section Names

theorem checkSpelling_relocate (kind name : String) (loc : Location) :
    checkSpelling kind name (move loc) = relocateOutcome move id (checkSpelling kind name loc) := by
  rw [checkSpelling, checkSpelling]
  split <;> rfl

theorem checkName_relocate (kind name : String) (loc : Location) :
    checkName kind name (move loc) = relocateOutcome move id (checkName kind name loc) := by
  rw [checkName, checkName]
  refine bind_relocate (checkSpelling_relocate kind name loc) fun _ => ?_
  split <;> rfl

theorem forM_members_relocate {T : Type} {part : T → T} {check : String → Location → Except Failure Unit}
    (h : ∀ name loc, check name (move loc) = relocateOutcome move id (check name loc)) (members : List (Member T)) :
    ((members.map (Member.relocate move part)).forM fun member => check member.name member.loc) =
      relocateOutcome move id (members.forM fun member => check member.name member.loc) :=
  forM_relocate fun member _ => h member.name member.loc

theorem forM_names_relocate (kind : String) (loc : Location) (names : List String) :
    (names.forM fun name => checkName kind name (move loc)) =
      relocateOutcome move id (names.forM fun name => checkName kind name loc) := by
  have hnames : ((names.map id).forM fun name => checkName kind name (move loc)) =
      relocateOutcome move id (names.forM fun name => checkName kind name loc) :=
    forM_relocate fun name _ => checkName_relocate kind name loc
  rwa [map_id] at hnames

theorem checkItemNames_relocate (item : TypedItem) :
    checkItemNames (item.relocate move) = relocateOutcome move id (checkItemNames item) := by
  have hparams : ∀ params : List (Member TypedTypeExpr),
      ((params.map (Member.relocate move (TypedTypeExpr.relocate move))).forM fun param =>
        checkName "parameter" param.name param.loc) =
      relocateOutcome move id (params.forM fun param => checkName "parameter" param.name param.loc) :=
    forM_members_relocate (checkName_relocate "parameter")
  cases item with
  | struct loc name fields =>
    refine bind_relocate (checkName_relocate "item" name loc) fun _ => ?_
    exact forM_members_relocate (checkSpelling_relocate "field") fields
  | eclipsed loc name fields =>
    refine bind_relocate (checkName_relocate "item" name loc) fun _ => ?_
    exact forM_members_relocate (checkSpelling_relocate "field") fields
  | function loc header body signature =>
    refine bind_relocate (checkName_relocate "item" header.name loc) fun _ => ?_
    refine bind_relocate (forM_names_relocate "type parameter" loc header.typeParams) fun _ => ?_
    refine bind_relocate (hparams header.params) fun _ => ?_
    rw [blockBindings_relocate]
    exact forM_relocate fun symbol _ => checkName_relocate "binding" symbol.name symbol.loc
  | builtin loc header signature =>
    refine bind_relocate (checkName_relocate "item" header.name loc) fun _ => ?_
    refine bind_relocate (forM_names_relocate "type parameter" loc header.typeParams) fun _ => ?_
    exact hparams header.params
  | use loc name => exact bind_relocate (checkName_relocate "item" name loc) fun _ => rfl
  | opaqueType loc name typeParams => exact bind_relocate (checkName_relocate "item" name loc) fun _ => rfl
  | other loc name => exact bind_relocate (checkName_relocate "item" name loc) fun _ => rfl

theorem checkModuleNames_relocate (module_ : TypedModule) :
    checkModuleNames (module_.relocate move) = relocateOutcome move id (checkModuleNames module_) := by
  refine bind_relocate (checkName_relocate "module" module_.name module_.loc) fun _ => ?_
  exact forM_relocate fun item _ => checkItemNames_relocate item

end Names

section Containment
variable (structs : Table StructInfo)

theorem foldlM_relocate_id {α γ : Type} {step step' : γ → α → Except Failure γ}
    (hstep : ∀ state a, step' state a = relocateOutcome move id (step state a)) (as : List α) (start : γ) :
    as.foldlM step' start = relocateOutcome move id (as.foldlM step start) := by
  have hfold := foldlM_relocate (g := id) (k := id) hstep as start
  rwa [map_id] at hfold

theorem follow_relocate (budget : Nat) (path done : List String) (name : String) :
    follow (structs.map (StructInfo.relocate move)) budget path done name =
      relocateOutcome move id (follow structs budget path done name) := by
  induction budget generalizing path done name with
  | zero => rfl
  | succ budget ih =>
    rw [follow, follow]
    split
    · exact bind_relocate (Table.require_relocate structs name) fun _ => rfl
    · split
      · rfl
      · refine bind_relocate (Table.require_relocate structs name) fun info => ?_
        have hholds : (info.relocate move).holds = info.holds := rfl
        rw [hholds]
        exact bind_relocate (foldlM_relocate_id (ih (path ++ [name])) info.holds done) fun _ => rfl

/-- A moved struct contains itself in the same cases. -/
theorem checkContainment_relocate :
    checkContainment (structs.map (StructInfo.relocate move)) = relocateOutcome move id (checkContainment structs) := by
  rw [checkContainment, checkContainment, Table.keys_map, Table.size_map]
  exact bind_relocate (foldlM_relocate_id (follow_relocate structs (structs.size + 1) []) structs.keys []) fun _ => rfl

end Containment

section Items
variable (structs : Table StructInfo) (setting : Setting)

/-- The texts of names with their types. -/
theorem mapM_typed_relocate (loc : Location) (text : String → String → String) (members : List (String × Ty)) :
    (members.mapM fun (name, type) => do
      let type ← setting.type (some (move loc)) type
      return text name type) =
      relocateOutcome move id (members.mapM fun (name, type) => do
        let type ← setting.type (some loc) type
        return text name type) := by
  induction members with
  | nil => rfl
  | cons member members ih =>
    rw [mapM_cons, mapM_cons]
    refine bind_relocate (g := id) (bind_relocate (setting.type_relocate (some loc) member.2) fun _ => rfl) fun _ => ?_
    exact bind_relocate ih fun _ => rfl

theorem structLines_relocate (loc : Location) (name : String) :
    structLines (structs.map (StructInfo.relocate move)) setting (move loc) name =
      relocateOutcome move id (structLines structs setting loc name) := by
  rw [structLines, structLines]
  refine bind_relocate (Table.get_relocate structs ⟨setting.moduleName, name⟩) fun info => ?_
  exact bind_relocate (mapM_typed_relocate setting loc
    (fun field type => "pub " ++ identifier field ++ ": " ++ type ++ ",") info.fields) fun _ => rfl

theorem functionHeader_relocate (signature : Signature) :
    functionHeader setting (signature.relocate move) = relocateOutcome move id (functionHeader setting signature) := by
  rw [functionHeader, functionHeader]
  refine bind_relocate (mapM_typed_relocate setting signature.loc
    (fun name type => "mut " ++ identifier name ++ ": " ++ type) signature.params) fun params => ?_
  have hresult : (signature.relocate move).result = signature.result := rfl
  by_cases hunit : signature.result = .unit
  · simp only [hresult, if_pos hunit]
    rfl
  · simp only [hresult, if_neg hunit]
    exact bind_relocate (setting.type_relocate (some signature.loc) signature.result) fun _ => rfl

theorem functionLines_relocate (signature : Signature) (body : Block TypedStmt) :
    functionLines setting (signature.relocate move) (relocateTypedBlock move body) =
      relocateOutcome move id (functionLines setting signature body) := by
  have hshadowed : shadowedNames (signature.relocate move) (relocateTypedBlock move body) =
      shadowedNames signature body := by
    rw [shadowedNames, shadowedNames, blockBindings_relocate, map_map]
    rfl
  rw [functionLines, functionLines, hshadowed]
  refine bind_relocate (functionHeader_relocate _ signature) fun header => ?_
  exact bind_relocate (Setting.block_relocate_of_forall _ fun stmt _ => Setting.stmt_relocate _ stmt) fun _ => rfl

theorem itemLines_relocate (item : TypedItem) :
    itemLines (structs.map (StructInfo.relocate move)) setting (item.relocate move) =
      relocateOutcome move id (itemLines structs setting item) := by
  cases item with
  | struct loc name fields => exact bind_relocate (structLines_relocate structs setting loc name) fun _ => rfl
  | eclipsed loc name fields => exact bind_relocate (structLines_relocate structs setting loc name) fun _ => rfl
  | function loc header body signature =>
    exact bind_relocate (functionLines_relocate setting signature body) fun _ => rfl
  | use | opaqueType | builtin | other => rfl

end Items

/-- A moved module has the same Rust lines. -/
theorem moduleLines_relocate (registry : Registry) (module_ : TypedModule) :
    moduleLines (registry.relocate move) (module_.relocate move) =
      relocateOutcome move id (moduleLines registry module_) := by
  rw [moduleLines, moduleLines]
  refine bind_relocate (mapM_relocate_id fun item _ => ?_) fun _ => rfl
  exact itemLines_relocate registry.structs ⟨registry.graph.prelude, module_.name, []⟩ item

/-- The Rust text of a program says nothing about places. -/
theorem crateLines_relocate (program : Program) (emitEntry : Bool) :
    crateLines (program.relocate move) emitEntry = relocateOutcome move id (crateLines program emitEntry) := by
  have husers : (program.relocate move).userModules = program.userModules.map (TypedModule.relocate move) := by
    rw [Program.userModules, Program.userModules, Program.relocate, filter_map]
    rfl
  rw [crateLines, crateLines, husers]
  refine bind_relocate (forM_relocate fun module_ _ => checkModuleNames_relocate module_) fun _ => ?_
  refine bind_relocate (checkContainment_relocate program.registry.structs) fun _ => ?_
  exact bind_relocate (mapM_relocate_id fun module_ _ => moduleLines_relocate program.registry module_) fun _ => rfl

end Rust

end Smpl
