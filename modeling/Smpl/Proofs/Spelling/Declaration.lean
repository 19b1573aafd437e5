import Smpl.Proofs.Spelling.Graph

namespace Smpl

theorem Graph.signatures_eq_declarations (graph : Graph) (types : DeclaredTypes) :
    graph.signatures types = (graph.declarations.mapM (graph.signature? types)).map List.flatten := by
  refine (map_flatten_mapM_filter fun entry _ huse => ?_).symm
  obtain ⟨owner, item⟩ := entry
  cases item with
  | use => rfl
  | _ => cases huse

namespace Registry

/-- A declared struct and what becomes of it when it is checked and its paths are spelled. -/
def RespellsStruct (registry : Registry) (full : String → Bool) (decl decl' : StructDecl) : Prop :=
  decl'.name = decl.name ∧ decl'.loc = decl.loc ∧
    ∃ out, registry.ChecksItem decl.name.moduleName (.struct decl.loc decl.name.name decl.fields) out ∧
      (out.spelled (full decl.name.moduleName)).erase = .struct decl.loc decl.name.name decl'.fields

namespace Rewritten

variable {registry : Registry} {full : String → Bool} {graph' : Graph} (h : registry.Rewritten full graph')
include h

theorem structDecls : List.Forall₂ (registry.RespellsStruct full) (registry.graph.items.filterMap structDecl?)
    (graph'.items.filterMap structDecl?) := by
  have huse : ∀ entry : String × Item, entry.2.isUse = true → structDecl? entry = none := by
    rintro ⟨owner, item⟩ huse
    cases item with
    | use => rfl
    | _ => cases huse
  rw [← Graph.filterMap_declarations huse, ← Graph.filterMap_declarations huse]
  refine List.rel_filterMap ?_ h.declarations
  rintro ⟨owner, item⟩ _ ⟨out, hchecks, rfl⟩
  dsimp only at hchecks ⊢
  cases hchecks with
  | struct hget hname hnames hresolved => exact .some ⟨rfl, rfl, _, .struct hget hname hnames hresolved, rfl⟩
  | eclipsed hget hname => exact .some ⟨rfl, rfl, _, .eclipsed hget hname, rfl⟩
  | use | opaqueType | function | builtin | other => exact .none

theorem opaqueInfos : graph'.items.filterMap opaqueInfo? = registry.graph.items.filterMap opaqueInfo? := by
  have huse : ∀ entry : String × Item, entry.2.isUse = true → opaqueInfo? entry = none := by
    rintro ⟨owner, item⟩ huse
    cases item with
    | use => rfl
    | _ => cases huse
  rw [← Graph.filterMap_declarations huse, ← Graph.filterMap_declarations huse, eq_comm, ← List.forall₂_eq_eq_eq]
  refine List.rel_filterMap ?_ h.declarations
  rintro ⟨owner, item⟩ _ ⟨out, hchecks, rfl⟩
  dsimp only at hchecks ⊢
  cases hchecks with
  | opaqueType => exact .some rfl
  | use | struct | eclipsed | function | builtin | other => exact .none

/-- The types that the rewritten modules declare are those of the program. -/
theorem exists_declaredTypes {signatures : List Signature} (htables : registry.Tabulates signatures) :
    ∃ types', graph'.declaredTypes = .ok types' ∧
      registry.types.structs.Forall₂ (registry.RespellsStruct full) types'.structs ∧
      types'.opaques = registry.types.opaques := by
  obtain ⟨hdistinct, htypes⟩ := Graph.declaredTypes_eq_ok_iff.1 htables.types
  refine ⟨_, Graph.declaredTypes_eq_ok_iff.2 ⟨fun hdeclares => ?_, rfl⟩, ?_, ?_⟩
  · obtain ⟨item, out, hitem, hchecks, heq⟩ := h.exists_checksItem hdeclares
    rw [eq_comm, TypedItem.erase_spelled_eq_opaqueType_iff, hchecks.erase] at heq
    exact hdistinct (heq ▸ hitem)
  · rw [htypes]
    exact .byName (fun _ _ hrespells => hrespells.1.symm) h.structDecls
  · rw [htypes, h.opaqueInfos]

end Rewritten

end Registry

end Smpl
