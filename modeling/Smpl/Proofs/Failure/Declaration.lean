import Smpl.Proofs.Failure.Outcome
import Smpl.Proofs.Formed.Type

namespace Smpl

variable {α : Type} {file : String} {loc : Location}

theorem failsIn_mismatch (what : Mismatch) (h : loc.file = file) :
    FailsIn file (mismatch what loc : Except Failure α) :=
  failsIn_refuse _ h

theorem failsIn_expectType {what : Mismatch} {expected found : Ty} (h : loc.file = file) :
    FailsIn file (expectType what expected found loc) :=
  .ite (fun _ => .ok ()) fun _ => failsIn_refuse _ h

theorem failsIn_expectTypeArgs {name : String} {expected actual : Nat} (h : loc.file = file) :
    FailsIn file (expectTypeArgs name expected actual loc) :=
  .ite (fun _ => .ok ()) fun _ => failsIn_refuse _ h

theorem Collected.failsIn_add {collected : Collected} {item : Item} (h : item.loc.file = file) :
    FailsIn file (collected.add item) := by
  rw [add]
  split
  · split
    · exact failsIn_refuse _ h
    · exact .ok _
  split
  · exact failsIn_refuse _ h
  split
  · exact failsIn_refuse _ h
  · exact .ok _

/-- Collecting the items of a module fails only in the file of the module. -/
theorem GraphModule.failsIn_ofModule {isPrelude : Bool} {tree : Module} (h : tree.ReadFrom file) :
    FailsIn file (GraphModule.ofModule isPrelude tree) := by
  refine .last (.foldlM (fun _ => True) (fun _ _ item hitem => ?_) trivial)
  exact ⟨Collected.failsIn_add (h.items item hitem).loc, fun _ _ => trivial⟩

namespace Graph

variable {graph : Graph}

theorem failsIn_addModule {tree : Module} (h : tree.ReadFrom file) : FailsIn file (graph.addModule tree) := by
  refine .bind (GraphModule.failsIn_ofModule h) fun module_ _ => ?_
  split
  · exact failsIn_refuse _ h.loc
  · exact .pure _

/-- A module that is not there is reported where it is used. -/
theorem failsIn_checkUses {module_ : GraphModule} (h : module_.tree.ReadFrom file) :
    FailsIn file (graph.checkUses module_) := by
  refine .forM fun use huse => ?_
  have hloc := (h.items use (List.mem_of_mem_filter huse)).loc
  rw [checkUse]
  split
  · exact failsIn_refuse _ hloc
  split
  · exact .ok ()
  · exact failsIn_refuse _ hloc

variable {viewer : String} (hviewer : ∃ module_, graph.find? viewer = some module_)
include hviewer

theorem exists_get : ∃ module_, graph.get viewer = .ok module_ := by
  obtain ⟨module_, hfind⟩ := hviewer
  exact ⟨module_, by rw [get, hfind]⟩

theorem failsIn_resolve {name : String} (hloc : loc.file = file) :
    FailsIn file (graph.resolve viewer name (some loc)) := by
  obtain ⟨module_, hget⟩ := exists_get hviewer
  refine .bind (.of_eq_ok hget) fun module_ _ => ?_
  split
  · exact .pure _
  split
  · exact .pure _
  · exact .pure _
  · exact .error ⟨_, loc, rfl, rfl, hloc⟩

/-- A path that cannot be resolved is reported where it stands. -/
theorem failsIn_resolvePath {path : Path} (hloc : loc.file = file) :
    FailsIn file (graph.resolvePath viewer path (some loc)) := by
  rw [resolvePath]
  split
  · exact failsIn_resolve hviewer hloc
  · split
    · exact .error ⟨_, loc, rfl, rfl, hloc⟩
    · exact .ok _
  · exact .error ⟨_, loc, rfl, rfl, hloc⟩

theorem failsIn_visibleNames : FailsIn file (graph.visibleNames viewer) := by
  obtain ⟨module_, hget⟩ := exists_get hviewer
  exact .last (.of_eq_ok hget)

end Graph

variable {types : DeclaredTypes} {owner name : String} {graph : Graph}

theorem failsIn_checkTypeParams {seen names : List String} (h : loc.file = file) :
    FailsIn file (checkTypeParams loc seen names) := by
  induction names generalizing seen with
  | nil => exact .ok ()
  | cons name names ih =>
    exact .ite (fun _ => failsIn_refuse _ h) fun _ => .ite (fun _ => failsIn_refuse _ h) fun _ => ih

/-- A declared type is refused where it is declared. -/
theorem DeclaredTypes.failsIn_add {item : Item} (h : item.ReadFrom file) : FailsIn file (types.add (owner, item)) := by
  cases h with
  | opaqueType hloc => exact .last (failsIn_checkTypeParams hloc)
  | _ => exact .ok _

theorem DeclaredTypes.Describes.struct_get (h : types.Describes graph) {fields : List (Member TypeExpr)}
    (hdeclares : graph.Declares owner (.struct loc name fields)) :
    types.structs.get ⟨owner, name⟩ = .ok ⟨⟨owner, name⟩, fields, loc⟩ :=
  h.structs.2 ⟨rfl, hdeclares⟩

theorem TypeScope.failsIn_simple? {scope : TypeScope} {path : Path} (hpath : path.isMissing = false) :
    FailsIn file (scope.simple? path) := by
  rw [simple?, if_neg (by simp [hpath])]
  exact .ite (fun _ => .ok _) fun _ => .ok _

namespace TypeScope.Knows

variable {scope : TypeScope} (h : scope.Knows)
include h

theorem failsIn_undefinedType {path : Path} (hloc : loc.file = file) :
    FailsIn file (scope.undefinedType path loc : Except Failure α) := by
  rw [undefinedType]
  split
  · exact .bind (failsIn_mismatch _ hloc) fun _ _ =>
      .bind (Graph.failsIn_visibleNames h.viewer) fun _ _ => failsIn_refuse _ hloc
  · exact .bind (Graph.failsIn_visibleNames h.viewer) fun _ _ => failsIn_refuse _ hloc

/-- Resolving a type that was read from a file fails only with a diagnostic about that file. The types
    that a name can mean are declared, so that looking them up does not fail. -/
theorem failsIn_resolve {type : TypeExpr} (hread : type.ReadFrom file) : FailsIn file (scope.resolve type) := by
  induction hread with
  | named hloc hpath _ hargs =>
    refine .bind (failsIn_simple? hpath) fun simple _ => ?_
    split
    · exact .last (failsIn_expectTypeArgs hloc)
    refine .bind (Graph.failsIn_resolvePath h.viewer hloc) fun found hfound => ?_
    split
    · exact h.failsIn_undefinedType hloc
    · have hdeclares := ((h.resolvePath_eq_ok_iff hpath).1 hfound).declares
      exact .bind (failsIn_expectTypeArgs hloc) fun _ _ =>
        .last (.of_eq_ok (h.types.struct_get hdeclares))
    · have hdeclares := ((h.resolvePath_eq_ok_iff hpath).1 hfound).declares
      have hget : scope.types.opaques.get ⟨_, _⟩ = .ok ⟨⟨_, _⟩, _⟩ := h.types.opaqueTypes.2 ⟨rfl, _, hdeclares⟩
      refine .bind (.of_eq_ok hget) fun _ _ =>
        .bind (failsIn_expectTypeArgs hloc) fun _ _ => .last ?_
      rw [resolveList_eq_mapM]
      exact .mapM hargs
    · exact failsIn_mismatch _ hloc
  | array _ _ _ helement => exact .last helement
  | @function _ _ result _ _ _ hparams hresult =>
    rw [resolve, resolveList_eq_mapM]
    refine .bind (.mapM hparams) fun _ _ => .last ?_
    cases result with
    | none => exact .pure _
    | some type => exact .last (hresult type rfl)

theorem failsIn_resolveOption {type : Option TypeExpr} (hread : ∀ written ∈ type, written.ReadFrom file) :
    FailsIn file (scope.resolveOption type) := by
  cases type with
  | none => exact .pure _
  | some type => exact .last (h.failsIn_resolve (hread type rfl))

/-- Fields are refused where they are declared. -/
theorem failsIn_fields {struct : String} {seen : List String} {fields : List (Member TypeExpr)}
    (hread : ∀ field ∈ fields, field.ReadFrom file) : FailsIn file (scope.fields struct seen fields) := by
  induction fields generalizing seen with
  | nil => exact .pure _
  | cons field fields ih =>
    obtain ⟨hfield, hothers⟩ := List.forall_mem_cons.1 hread
    rw [TypeScope.fields]
    split
    · exact .bind (failsIn_refuse _ hfield.loc) fun _ _ => .bind (h.failsIn_resolve hfield.type) fun _ _ =>
        .last (ih hothers)
    · exact .bind (h.failsIn_resolve hfield.type) fun _ _ => .last (ih hothers)

theorem failsIn_params {seen params : List (Member TypeExpr)} (hread : ∀ param ∈ params, param.ReadFrom file) :
    FailsIn file (scope.params seen params) := by
  induction params generalizing seen with
  | nil => exact .pure _
  | cons param params ih =>
    obtain ⟨hparam, hothers⟩ := List.forall_mem_cons.1 hread
    rw [TypeScope.params]
    split
    · exact .bind (failsIn_refuse _ hparam.loc) fun _ _ => .bind (h.failsIn_resolve hparam.type) fun _ _ =>
        .last (ih hothers)
    · exact .bind (h.failsIn_resolve hparam.type) fun _ _ => .last (ih hothers)

end TypeScope.Knows

namespace Graph

variable {graph : Graph} {types : DeclaredTypes} {owner : String}

/-- A header that was read from a file fails only in that file. -/
theorem failsIn_checkHeader {header : Header TypeExpr} (hknows : (graph.headerScope types owner header).Knows)
    (hloc : loc.file = file) (hread : header.ReadFrom file) : FailsIn file (graph.checkHeader types owner loc header) :=
  .bind (failsIn_checkTypeParams hloc) fun _ _ => .bind (hknows.failsIn_params hread.params) fun _ _ =>
    .last (hknows.failsIn_resolveOption hread.result)

theorem failsIn_signature? {item : Item} (hknows : ∀ typeNames, (TypeScope.mk graph types owner typeNames).Knows)
    (hread : item.ReadFrom file) : FailsIn file (graph.signature? types (owner, item)) := by
  cases hread with
  | function hloc hheader _ => exact .last (failsIn_checkHeader (hknows _) hloc hheader)
  | builtin hloc hheader => exact .last (failsIn_checkHeader (hknows _) hloc hheader)
  | _ => exact .pure _

end Graph

end Smpl
