import Smpl.Proofs.Failure.Body

namespace Smpl

open List

theorem Failure.isDiagnostic_refuse {α : Type} (cause : Cause) (loc : Location) :
    FailsOnly Failure.IsDiagnostic (refuse cause loc : Except Failure α) :=
  .error ⟨_, rfl⟩

/-- Checking an item that was read from a file fails only with a diagnostic about that file. -/
theorem Registry.Describes.failsIn_checkItem {registry : Registry} (h : registry.Describes)
    (hread : registry.graph.Read)
    {owner file : String} {item : Item} (hmem : (owner, item) ∈ registry.graph.items) (hitem : item.ReadFrom file) :
    FailsIn file (registry.checkItem owner item) := by
  have hdeclares : item.isUse = false → registry.graph.Declares owner item := fun huse =>
    Graph.declares_iff_mem_items.2 ⟨hmem, huse⟩
  cases hitem with
  | use => exact .pure _
  | struct _ hfields =>
    refine .bind (.of_eq_ok (h.types.struct_get (hdeclares rfl))) fun _ _ => .ite (fun _ => .pure _) fun _ => ?_
    exact .last ((h.knows (hdeclares rfl) []).failsIn_fields hfields)
  | opaqueType => exact .pure _
  | function hloc hheader hbody =>
    refine .bind (Graph.failsIn_checkHeader (h.knows (hdeclares rfl) _) hloc hheader) fun checked hchecked => ?_
    refine .last ((h.bodyContext_formed hread (hdeclares rfl)).failsIn_body hbody hloc
      (h.formed_paramLocals hread (hdeclares rfl) hchecked rfl) fun symbol hsymbol => ?_)
    obtain ⟨param, hparam, rfl⟩ := mem_map.1 hsymbol
    obtain ⟨_, _, params, _, hparams, _, rfl⟩ := Graph.checkHeader_eq_ok_iff.1 hchecked
    obtain ⟨written, hwritten, _, _, rfl⟩ := TypeScope.exists_of_mem_members hparams hparam
    exact (hheader.params written hwritten).loc
  | builtin hloc hheader =>
    exact .last (Graph.failsIn_checkHeader (h.knows (hdeclares rfl) _) hloc hheader)

namespace Graph

variable {P : Failure → Prop} {graph : Graph}

theorem mem_items_iff {entry : String × Item} :
    entry ∈ graph.items ↔ ∃ module_ ∈ graph.modules, ∃ item ∈ module_.tree.items, (module_.name, item) = entry := by
  simp only [items, mem_flatMap, mem_map]

/-- What is done with an item of a program to check it fails only in some way. Of each step only the
    cases in which the steps before it succeed matter. -/
structure ItemFailsOnly (P : Failure → Prop) (graph : Graph) (entry : String × Item) : Prop where
  add : ∀ types : DeclaredTypes, FailsOnly P (types.add entry)
  structInfo : ∀ {types decl}, graph.declaredTypes = .ok types → structDecl? entry = some decl →
    FailsOnly P (graph.structInfo types decl)
  signature? : ∀ {types}, graph.declaredTypes = .ok types → FailsOnly P (graph.signature? types entry)
  checkItem : ∀ {types structs signatures}, graph.declaredTypes = .ok types → graph.structs types = .ok structs →
    graph.signatures types = .ok signatures →
    FailsOnly P ((Registry.mk graph types structs (functionTable signatures)).checkItem entry.1 entry.2)

theorem ItemFailsOnly.mono {Q : Failure → Prop} {entry : String × Item} (h : graph.ItemFailsOnly P entry)
    (hPQ : ∀ failure, P failure → Q failure) : graph.ItemFailsOnly Q entry where
  add := fun types => (h.add types).mono hPQ
  structInfo := fun htypes hdecl => (h.structInfo htypes hdecl).mono hPQ
  signature? := fun htypes => (h.signature? htypes).mono hPQ
  checkItem := fun htypes hstructs hsignatures => (h.checkItem htypes hstructs hsignatures).mono hPQ

/-- Checking a program fails only as the steps for its items and for its entry point do. -/
theorem failsOnly_check (hitems : ∀ entry ∈ graph.items, graph.ItemFailsOnly P entry)
    (hentry : ∀ {types signatures}, graph.declaredTypes = .ok types → graph.signatures types = .ok signatures →
      FailsOnly P (graph.entryModule signatures)) : FailsOnly P graph.check.outcome := by
  rw [outcome_check]
  have htypes : FailsOnly P graph.declaredTypes :=
    .foldlM (fun _ => True) (fun types _ entry hentry => ⟨(hitems entry hentry).add types, fun _ _ => trivial⟩) trivial
  refine .bind htypes fun types htypes => .bind ?structs fun structs hstructs =>
    .bind ?signatures fun signatures hsignatures =>
    .bind (hentry htypes hsignatures) fun _ _ => .last (.mapM fun module_ hmodule => ?modules)
  case structs =>
    refine .last (.mapM fun keyed hkeyed => .last ?_)
    rw [(declaredTypes_eq_ok_iff.1 htypes).2] at hkeyed
    rcases Table.mem_foldl_put hkeyed with hdecl | hempty
    · obtain ⟨entry, hentry, hdecl⟩ := mem_filterMap.1 hdecl
      exact (hitems entry hentry).structInfo htypes hdecl
    · cases hempty
  case signatures => exact .map (.mapM fun entry hentry => (hitems entry hentry).signature? htypes)
  case modules =>
    refine .last (.mapM fun item hitem => ?_)
    exact (hitems _ (mem_items_iff.2 ⟨module_, hmodule, item, hitem, rfl⟩)).checkItem htypes hstructs hsignatures

/-- A program with more than one entry point is refused by a diagnostic. -/
theorem failsOnly_entryModule (signatures : List Signature) :
    FailsOnly Failure.IsDiagnostic (graph.entryModule signatures) := by
  rw [entryModule]
  split
  · exact .ok _
  · exact .ite (fun _ => Failure.isDiagnostic_refuse _ _) fun _ =>
      .ite (fun _ => Failure.isDiagnostic_refuse _ _) fun _ => .ok _
  · exact Failure.isDiagnostic_refuse _ _

section

variable (hwell : graph.WellFormed) (hplain : graph.Plain)
include hwell

theorem WellFormed.viewer {module_ : GraphModule} (hmodule : module_ ∈ graph.modules) :
    graph.find? module_.name = some module_ :=
  hwell.find?_eq_some_iff.2 ⟨hmodule, rfl⟩

include hplain

/-- A scope of types in a module of the program. -/
theorem WellFormed.knows_module {types : DeclaredTypes} (htypes : graph.declaredTypes = .ok types)
    {module_ : GraphModule} (hmodule : module_ ∈ graph.modules) (typeNames : List (String × Ty)) :
    (TypeScope.mk graph types module_.name typeNames).Knows where
  graph := hwell
  types := hwell.describes_of_declaredTypes hplain htypes
  viewer := ⟨module_, hwell.viewer hmodule⟩

/-- Checking an item of a module that was read fails only with diagnostics about its file. -/
theorem WellFormed.itemFailsIn (hread : graph.Read) {module_ : GraphModule} (hmodule : module_ ∈ graph.modules)
    {item : Item} (hitem : item ∈ module_.tree.items) :
    graph.ItemFailsOnly (Failure.LocatedIn module_.tree.file) (module_.name, item) := by
  have hreadItem := (hread module_ hmodule).items item hitem
  refine ⟨fun _ => DeclaredTypes.failsIn_add hreadItem, fun htypes hdecl => ?_, fun htypes => ?_,
    fun htypes hstructs hsignatures => ?_⟩
  · have hknows := hwell.knows_module hplain htypes hmodule []
    cases hreadItem with
    | struct _ hfields =>
      cases hdecl
      exact .last (hknows.failsIn_fields hfields)
    | _ => cases hdecl
  · exact failsIn_signature? (hwell.knows_module hplain htypes hmodule) hreadItem
  · have hregistry := hwell.registry_describes hplain htypes hstructs hsignatures
    exact hregistry.failsIn_checkItem hread (mem_items_iff.2 ⟨module_, hmodule, item, hitem, rfl⟩) hreadItem

/-- Checking a program that was read fails only with diagnostics. -/
theorem WellFormed.failsOnly_check (hread : graph.Read) : FailsOnly Failure.IsDiagnostic graph.check.outcome := by
  refine Graph.failsOnly_check (fun entry hentry => ?_) fun _ _ => failsOnly_entryModule _
  obtain ⟨module_, hmodule, item, hitem, rfl⟩ := mem_items_iff.1 hentry
  exact (hwell.itemFailsIn hplain hread hmodule hitem).mono fun _ h => h.isDiagnostic

end

/-- Assembling modules that were read fails only with diagnostics. -/
theorem failsOnly_build {trees : List Module} {prelude : Option Module}
    (htrees : ∀ tree ∈ prelude.toList ++ trees, tree.ReadFrom tree.file) :
    FailsOnly Failure.IsDiagnostic (build trees prelude) := by
  obtain ⟨hprelude, htrees⟩ := forall_mem_append.1 htrees
  have hstart : FailsOnly Failure.IsDiagnostic (ofPrelude prelude) := by
    cases prelude with
    | none => exact .ok _
    | some tree =>
      have htree := hprelude tree (Option.mem_toList.2 rfl)
      exact .last ((GraphModule.failsIn_ofModule htree).mono fun _ h => h.isDiagnostic)
  refine .bind hstart fun start hstart => .bind ?modules fun graph hgraph => .last ?uses
  case modules =>
    refine .foldlM (fun _ => True) (fun graph _ tree htree => ⟨?_, fun _ _ => trivial⟩) trivial
    exact (failsIn_addModule (htrees tree htree)).mono fun _ h => h.isDiagnostic
  case uses =>
    refine .forM fun module_ hmodule => ?_
    obtain ⟨_, rfl⟩ := ofPrelude_eq_ok_iff.1 hstart
    obtain ⟨_, _, rfl⟩ := foldlM_addModule_eq_ok_iff.1 hgraph
    have hmodule : ∃ tree ∈ prelude.toList ++ trees, tree = module_.tree := by
      simp only [ofTrees, map_nil, append_nil, mem_append, mem_map] at hmodule
      rcases hmodule with ⟨tree, htree, rfl⟩ | ⟨tree, htree, rfl⟩
      · exact ⟨tree, mem_append_left _ htree, rfl⟩
      · exact ⟨tree, mem_append_right _ htree, rfl⟩
    obtain ⟨tree, htree, rfl⟩ := hmodule
    have hread := forall_mem_append.2 ⟨hprelude, htrees⟩ _ htree
    exact (failsIn_checkUses hread).mono fun _ h => h.isDiagnostic

end Graph

end Smpl
