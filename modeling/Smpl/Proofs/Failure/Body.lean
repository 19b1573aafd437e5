import Smpl.Proofs.Failure.Declaration
import Smpl.Proofs.Formed.Body

namespace Smpl

open List

variable {α : Type} {file : String}

theorem TypedExpr.loc_erase (e : TypedExpr) : e.erase.loc = e.loc := by
  cases e <;> rfl

theorem Scope.failsIn_declare {scope : Scope} {symbol : Local} (h : symbol.loc.file = file) :
    FailsIn file (scope.declare symbol) := by
  rw [declare]
  split
  · exact failsIn_refuse _ h
  · exact .ok _

namespace Context

theorem failsIn_local? {scope : Scope} {path : Path} (hpath : path.isMissing = false) :
    FailsIn file (local? scope path) := by
  rw [local?, if_neg (by simp [hpath])]
  exact .ite (fun _ => .ok _) fun _ => .ok _

theorem failsIn_unaryType {op : UnaryOp} {operand : Ty} {loc : Location} (hloc : loc.file = file) :
    FailsIn file (unaryType op operand loc) := by
  cases op with
  | negate => exact .ite (fun _ => .ok _) fun _ => failsIn_refuse _ hloc
  | not => exact .last (failsIn_expectType hloc)
  | reference => exact .ok _
  | dereference =>
    unfold unaryType
    dsimp only
    split
    · exact .ok _
    · exact failsIn_refuse _ hloc

theorem failsIn_binaryType {op : BinaryOp} {left right : TypedExpr} (hleft : left.loc.file = file)
    (hright : right.loc.file = file) : FailsIn file (binaryType op left right) := by
  rw [binaryType]
  split
  · exact .bind (failsIn_expectType hleft) fun _ _ => .last (failsIn_expectType hright)
  split
  · split
    · exact .bind (failsIn_refuse _ hleft) fun _ _ => .last (failsIn_expectType hright)
    · exact .last (failsIn_expectType hright)
  · dsimp only
    split
    · exact .bind (failsIn_refuse _ hleft) fun _ _ => .last (failsIn_expectType hright)
    · exact .last (failsIn_expectType hright)

/-- A checked expression stands where it was written. -/
theorem file_of_expr {ctx : Context} {scope : Scope} {e : Expr} {out : TypedExpr} (hread : e.ReadFrom file)
    (hout : ctx.expr scope e = .ok out) : out.loc.file = file := by
  rw [← TypedExpr.loc_erase, erase_of_expr e hout]
  exact hread.loc

namespace Formed

variable {ctx : Context} {params : List TypeParam} (h : ctx.Formed params) {scope : Scope} {loc : Location}
  {path : Path} {base : Ty} {e : Expr} {inLoop : Bool} {body : Block Stmt}
include h

theorem failsIn_binding {name : String} (hloc : loc.file = file) : FailsIn file (ctx.binding scope name loc) := by
  rw [binding]
  split
  · exact .pure _
  refine .bind (Graph.failsIn_resolve h.knows.viewer hloc) fun found _ => ?_
  split
  · exact failsIn_mismatch _ hloc
  · exact .ite (fun _ => failsIn_mismatch _ hloc) fun _ => failsIn_refuse _ hloc

theorem failsIn_item (hloc : loc.file = file) : FailsIn file (ctx.item scope path loc) := by
  refine .bind (Graph.failsIn_resolvePath h.knows.viewer hloc) fun found _ => ?_
  split
  · exact .pure _
  split
  · exact .bind (failsIn_mismatch _ hloc) fun _ _ =>
      .bind (Graph.failsIn_visibleNames h.knows.viewer) fun _ _ => failsIn_refuse _ hloc
  · exact .bind (Graph.failsIn_visibleNames h.knows.viewer) fun _ _ => failsIn_refuse _ hloc

/-- A function that a path means has a signature. -/
theorem failsIn_functions_get (hpath : path.isMissing = false) {owner : String} {item : Item}
    (hfound : ctx.item scope path loc = .ok (owner, item)) {header : Header TypeExpr}
    (hheader : item.header? = some header) : FailsIn file (ctx.registry.functions.get ⟨owner, header.name⟩) := by
  obtain ⟨signature, hget, _⟩ := h.knows.registry.functions (h.declares hpath (item_eq_ok_iff.1 hfound)) hheader
  exact .of_eq_ok hget

/-- Looking up a struct fails only with a diagnostic: what the path means is declared, and so registered. -/
theorem failsIn_struct (hpath : path.isMissing = false) (hloc : loc.file = file) :
    FailsIn file (ctx.struct path loc) := by
  rw [Context.struct, if_neg (by simp [hpath])]
  split
  · exact .bind (failsIn_mismatch _ hloc) fun _ hok => (mismatch_eq_ok_iff.1 hok).elim
  · refine .bind (Graph.failsIn_resolvePath h.knows.viewer hloc) fun found hfound => ?_
    split
    · exact .bind (Graph.failsIn_visibleNames h.knows.viewer) fun _ _ => failsIn_refuse _ hloc
    · obtain ⟨info, hget, _⟩ := h.knows.registry.structs (h.declares hpath hfound)
      exact .of_eq_ok hget
    · exact failsIn_mismatch _ hloc
    · exact failsIn_mismatch _ hloc

theorem failsIn_fieldType (hbase : base.Formed ctx.graph params) {field : String} (hloc : loc.file = file) :
    FailsIn file (ctx.fieldType loc base field) := by
  unfold fieldType
  split
  · cases hbase with
    | struct hdeclares =>
      obtain ⟨info, hget, _⟩ := h.knows.registry.structs hdeclares
      refine .bind (.of_eq_ok hget) fun _ _ => ?_
      split
      · exact .pure _
      · exact failsIn_refuse _ hloc
  · exact failsIn_mismatch _ hloc

theorem failsIn_chainType (hbase : base.Formed ctx.graph params) {fields : List String} (hloc : loc.file = file) :
    FailsIn file (ctx.chainType loc base fields) := by
  refine .foldlM (fun type => type.Formed ctx.graph params) (fun type htype field _ => ?_) hbase
  refine ⟨h.failsIn_fieldType htype hloc, fun type' htype' => ?_⟩
  obtain ⟨struct, _, hfield⟩ := h.knows.fieldType_eq_ok_iff.1 htype'
  exact hfield.formed h.read params

/-- Looking up a value fails only in the file of the place. -/
theorem failsIn_value (hpath : path.isMissing = false) (hloc : loc.file = file) :
    FailsIn file (ctx.value scope path loc) := by
  refine .bind (failsIn_local? hpath) fun symbol? _ => ?_
  split
  · exact .pure _
  refine .bind (h.failsIn_item hloc) fun found hfound => ?_
  split
  · refine .bind (h.failsIn_functions_get hpath hfound rfl) fun signature _ => ?_
    split
    · exact .last (failsIn_refuse _ hloc)
    · exact .pure _
  · refine .bind (h.failsIn_functions_get hpath hfound rfl) fun signature _ => ?_
    split
    · exact .last (failsIn_refuse _ hloc)
    · exact .pure _
  · exact failsIn_mismatch _ hloc

/-- Looking up the function of a call fails only in the file of the place. -/
theorem failsIn_callee (hpath : path.isMissing = false) {typeArgs : List TypeExpr}
    (htypeArgs : ∀ type ∈ typeArgs, type.ReadFrom file) (hloc : loc.file = file) :
    FailsIn file (ctx.callee scope path typeArgs loc) := by
  have hresolve : FailsIn file (ctx.typeScope.resolveList typeArgs) := by
    rw [TypeScope.resolveList_eq_mapM]
    exact .mapM fun type htype => h.knows.typeScope.failsIn_resolve (htypeArgs type htype)
  refine .bind (failsIn_local? hpath) fun symbol? _ => ?_
  split
  · split
    · exact .last (failsIn_expectTypeArgs hloc)
    · exact failsIn_refuse _ hloc
  refine .bind (h.failsIn_item hloc) fun found hfound => ?_
  split
  · exact .bind (h.failsIn_functions_get hpath hfound rfl) fun _ _ => .bind (failsIn_expectTypeArgs hloc) fun _ _ =>
      .last hresolve
  · exact .bind (h.failsIn_functions_get hpath hfound rfl) fun _ _ => .bind (failsIn_expectTypeArgs hloc) fun _ _ =>
      .last hresolve
  · exact failsIn_mismatch _ hloc

omit h in
theorem failsIn_args {args : List Expr} (hread : ∀ e ∈ args, e.ReadFrom file)
    (hargs : ∀ e ∈ args, FailsIn file (ctx.expr scope e)) {function : String} {index : Nat} {types : List Ty} :
    FailsIn file (ctx.args scope function index types args) := by
  induction args generalizing index types with
  | nil => exact .pure _
  | cons arg args ih =>
    obtain ⟨hfirst, hothers⟩ := forall_mem_cons.1 hread
    obtain ⟨harg, hargs⟩ := forall_mem_cons.1 hargs
    cases types with
    | nil => exact .pure _
    | cons type types =>
      exact .bind harg fun out hout => .bind (failsIn_expectType (file_of_expr hfirst hout)) fun _ _ =>
        .last (ih hothers hargs)

omit h in
/-- The entries of an initializer fail only in their file, if their values do. -/
theorem failsIn_inits {info : StructInfo} {fields : List (FieldInit Expr)}
    (hlocs : ∀ init ∈ fields, init.loc.file = file)
    (hread : ∀ init ∈ fields, init.value.ReadFrom file)
    (hfields : ∀ init ∈ fields, FailsIn file (ctx.expr scope init.value))
    {given : List String} : FailsIn file (ctx.inits scope info given fields) := by
  induction fields generalizing given with
  | nil => exact .pure _
  | cons field fields ih =>
    obtain ⟨hloc, hlocs⟩ := forall_mem_cons.1 hlocs
    obtain ⟨hfirst, hothers⟩ := forall_mem_cons.1 hread
    obtain ⟨hfield, hfields⟩ := forall_mem_cons.1 hfields
    have hvalue : ∀ type, FailsIn file (do
        let value ← ctx.expr scope field.value
        expectType (.fieldValue field.name info.name.name) type value.type value.loc
        let others ← ctx.inits scope info (field.name :: given) fields
        return FieldInit.mk field.loc field.name value :: others) := fun type =>
      .bind hfield fun out hout => .bind (failsIn_expectType (file_of_expr hfirst hout)) fun _ _ =>
        .last (ih hlocs hothers hfields)
    rw [Context.inits]
    split
    · exact .bind (failsIn_refuse _ hloc) fun _ _ => by
        split
        · exact failsIn_refuse _ hloc
        · exact hvalue _
    · split
      · exact failsIn_refuse _ hloc
      · exact hvalue _

/-- Checking an expression that was read from a file fails only with a diagnostic about that file. -/
theorem failsIn_expr (hread : e.ReadFrom file) (hscope : scope.Formed ctx.graph params) :
    FailsIn file (ctx.expr scope e) := by
  induction hread with
  | literal => exact .pure _
  | binding hloc hpath => exact .last (h.failsIn_value hpath hloc)
  | field hloc =>
    refine .bind (h.failsIn_binding hloc) fun symbol hsymbol => .last ?_
    exact h.failsIn_chainType (hscope (binding_eq_ok_iff.1 hsymbol)) hloc
  | call hloc hpath htypeArgs hread hargs =>
    refine .bind (h.failsIn_callee hpath htypeArgs hloc) fun callee _ => ?_
    split
    · exact .bind (failsIn_refuse _ hloc) fun _ _ => .last (failsIn_args hread hargs)
    · exact .last (failsIn_args hread hargs)
  | init hloc hpath hlocs hread hfields =>
    refine .bind (h.failsIn_struct hpath hloc) fun info _ => .bind (failsIn_inits hlocs hread hfields) fun inits _ => ?_
    dsimp only
    split
    · exact .last (failsIn_refuse _ hloc)
    · exact .pure _
  | unary hloc _ hoperand => exact .bind hoperand fun _ _ => .last (failsIn_unaryType hloc)
  | binary _ hfirst hsecond hleft hright =>
    exact .bind hleft fun left hout => .bind hright fun right hout' =>
      .last (failsIn_binaryType (file_of_expr hfirst hout) (file_of_expr hsecond hout'))
  | paren _ _ hinner => exact .last hinner

theorem failsIn_condition (hread : e.ReadFrom file) (hscope : scope.Formed ctx.graph params) :
    FailsIn file (ctx.condition scope e) :=
  .bind (h.failsIn_expr hread hscope) fun _ hout =>
    .last (failsIn_expectType (file_of_expr hread hout))

theorem failsIn_returned {value : Option Expr} (hread : ∀ e ∈ value, e.ReadFrom file)
    (hscope : scope.Formed ctx.graph params) (hloc : loc.file = file) :
      FailsIn file (ctx.returned scope loc value) := by
  cases value with
  | none => exact .last (failsIn_expectType hloc)
  | some e =>
    refine .bind (h.failsIn_expr (hread e rfl) hscope) fun out hout => ?_
    have hfile := file_of_expr (hread e rfl) hout
    split
    · exact .bind (failsIn_refuse _ hfile) fun _ _ => .last (failsIn_expectType hfile)
    · exact .last (failsIn_expectType hfile)

/-- Statements fail only in their file if each of them does, wherever it stands. -/
theorem failsIn_stmts {stmts : List Stmt} (hread : ∀ stmt ∈ stmts, stmt.ReadFrom file)
    (hstmts : ∀ stmt ∈ stmts, ∀ {scope inLoop}, scope.Formed ctx.graph params →
      FailsIn file (ctx.stmt inLoop scope stmt))
    (hscope : scope.Formed ctx.graph params) : FailsIn file (ctx.stmts inLoop scope stmts) := by
  induction stmts generalizing scope with
  | nil => exact .pure _
  | cons stmt stmts ih =>
    obtain ⟨hfirst, hothers⟩ := forall_mem_cons.1 hread
    obtain ⟨hstmt, hstmts⟩ := forall_mem_cons.1 hstmts
    refine .bind (hstmt hscope) fun out hout => .last (ih hothers hstmts ?_)
    exact h.scope_of_checksStmt hfirst hscope (stmt_eq_ok_iff.1 hout)

/-- A block fails only in its file, if its statements do. -/
theorem failsIn_block (hread : ∀ stmt ∈ body.statements, stmt.ReadFrom file)
    (hstmts : ∀ stmt ∈ body.statements, ∀ {scope inLoop}, scope.Formed ctx.graph params →
      FailsIn file (ctx.stmt inLoop scope stmt)) (hscope : scope.Formed ctx.graph params) :
    FailsIn file (ctx.block inLoop scope body) := by
  rw [Context.block]
  exact .last (h.failsIn_stmts hread hstmts hscope.push)

omit h in
theorem failsIn_branches {branches : List (Branch Expr Stmt)}
    (hconditions : ∀ branch ∈ branches, FailsIn file (ctx.condition scope branch.condition))
    (hbodies : ∀ branch ∈ branches, FailsIn file (ctx.block inLoop scope branch.body)) :
    FailsIn file (ctx.branches inLoop scope branches) := by
  induction branches with
  | nil => exact .pure _
  | cons branch branches ih =>
    obtain ⟨hcondition, hconditions⟩ := forall_mem_cons.1 hconditions
    obtain ⟨hbody, hbodies⟩ := forall_mem_cons.1 hbodies
    exact .bind hcondition fun _ _ => .bind hbody fun _ _ => .last (ih hconditions hbodies)

/-- Checking a statement that was read from a file fails only with a diagnostic about that file. -/
theorem failsIn_stmt {stmt : Stmt} (hread : stmt.ReadFrom file) (hscope : scope.Formed ctx.graph params) :
    FailsIn file (ctx.stmt inLoop scope stmt) := by
  induction hread generalizing inLoop scope with
  | block _ hread hbody => exact .last (h.failsIn_block hread hbody hscope)
  | letBinding hloc htype hvalue =>
    exact .bind (h.knows.typeScope.failsIn_resolve htype) fun _ _ => .bind (h.failsIn_expr hvalue hscope) fun _ hout =>
      .bind (failsIn_expectType (file_of_expr hvalue hout)) fun _ _ => .last (Scope.failsIn_declare hloc)
  | assign hloc hvalue =>
    refine .bind (h.failsIn_binding hloc) fun symbol hsymbol => .bind ?_ fun _ _ =>
      .bind (h.failsIn_expr hvalue hscope) fun _ hout =>
        .last (failsIn_expectType (file_of_expr hvalue hout))
    exact h.failsIn_chainType (hscope (binding_eq_ok_iff.1 hsymbol)) hloc
  | @ifChain _ _ otherwise _ _ hconditions hread _ hread' hbodies hotherwise =>
    refine .bind (failsIn_branches (fun branch hbranch => h.failsIn_condition (hconditions branch hbranch) hscope)
      fun branch hbranch => h.failsIn_block (hread branch hbranch) (hbodies branch hbranch) hscope) fun _ _ =>
        .last ?_
    cases otherwise with
    | none => exact .pure _
    | some body => exact .last (h.failsIn_block (hread' body rfl) (hotherwise body rfl) hscope)
  | whileLoop _ hcondition _ hread hbody =>
    exact .bind (h.failsIn_condition hcondition hscope) fun _ _ =>
      .last (h.failsIn_block hread hbody hscope)
  | returnValue hloc hvalue => exact .last (h.failsIn_returned hvalue hscope hloc)
  | breakLoop hloc => exact .ite (fun _ => .pure _) fun _ => failsIn_refuse _ hloc
  | continueLoop hloc => exact .ite (fun _ => .pure _) fun _ => failsIn_refuse _ hloc
  | expression _ hvalue => exact .last (h.failsIn_expr hvalue hscope)

/-- Checking a body that was read from a file fails only with a diagnostic about that file. -/
theorem failsIn_body (hread : body.ReadFrom file) (hloc : loc.file = file) {locals : List Local}
    (hlocals : ∀ symbol ∈ locals, symbol.type.Formed ctx.graph params)
    (hlocs : ∀ symbol ∈ locals, symbol.loc.file = file) : FailsIn file (ctx.body loc locals body) := by
  have hparams : FailsIn file (locals.foldlM Scope.declare Scope.empty) :=
    .foldlM (fun _ => True) (fun _ _ symbol hsymbol =>
      ⟨Scope.failsIn_declare (hlocs symbol hsymbol), fun _ _ => trivial⟩)
      trivial
  refine .bind hparams fun scope hscope => .bind (h.failsIn_block hread.statements
    (fun stmt hstmt => h.failsIn_stmt (hread.statements stmt hstmt)) ?_) fun _ _ => ?_
  · obtain ⟨_, rfl⟩ := foldlM_declare_eq_ok_iff.1 hscope
    rw [Scope.empty, append_nil]
    exact Scope.formed_of_locals hlocals
  · split
    · exact .last (failsIn_refuse _ hloc)
    · exact .pure _

end Formed

end Context

end Smpl
