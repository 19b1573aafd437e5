import Smpl.Proofs.Typing.Registry

namespace Smpl

open List

/-- Written types are types of values, unless a type parameter stands for something else. -/
theorem Denotes.ne_unit {site : Site} {type : TypeExpr} {denoted : Ty} (h : Denotes site type denoted)
    (hnames : ∀ entry ∈ site.typeNames, entry.2 ≠ .unit) : denoted ≠ .unit := by
  cases h with
  | @primitive _ name _ hname =>
    rintro ⟨⟩
    unfold Primitive.ofName? at hname
    split at hname <;> cases hname
  | typeName _ hlookup => exact hnames _ (mem_of_lookup hlookup)
  | struct | opaqueType | array | procedure | function => nofun

namespace Graph

variable {graph : Graph} {types : DeclaredTypes} {signatures : List Signature} {owner : String}
  {header : Header TypeExpr}

/-- A function takes and returns nothing exactly if its header says so. -/
theorem Signs.eq_nil_and_unit_iff {params : List (String × Ty)} {result : Ty}
    (h : graph.Signs owner header params result) :
    params = [] ∧ result = .unit ↔ header.params = [] ∧ header.result = none := by
  refine and_congr ⟨?_, ?_⟩ ⟨?_, ?_⟩
  · rintro rfl
    exact forall₂_nil_right_iff.1 h.params
  · intro hnil
    have hparams := h.params
    rw [DenotesMembers, hnil] at hparams
    exact forall₂_nil_left_iff.1 hparams
  · rintro rfl
    have hresult := h.result
    cases hwritten : header.result with
    | none => rfl
    | some type =>
      rw [hwritten] at hresult
      refine absurd rfl (Denotes.ne_unit hresult fun entry hentry => ?_)
      obtain ⟨param, _, rfl⟩ := mem_map.1 hentry
      intro hunit
      cases hunit
  · intro hnone
    have hresult := h.result
    rw [hnone] at hresult
    exact hresult

theorem HasEntry.declares (h : graph.HasEntry owner header) :
    ∃ item, graph.Declares owner item ∧ item.header? = some header ∧ header.name = entryName := by
  obtain ⟨module_, hmodule, _, hname, loc, body, hitem, hentry⟩ := h
  exact ⟨.function loc header body, ⟨module_, hmodule, hname, hitem, rfl⟩, rfl, hentry⟩

namespace WellFormed

variable (h : graph.WellFormed) (hplain : graph.Plain) (htypes : graph.declaredTypes = .ok types)
  (hsignatures : graph.signatures types = .ok signatures)
include h

theorem hasEntry_unique {header' : Header TypeExpr} (hentry : graph.HasEntry owner header)
    (hentry' : graph.HasEntry owner header') : header = header' := by
  obtain ⟨item, hdeclares, hheader, hname⟩ := hentry.declares
  obtain ⟨item', hdeclares', hheader', hname'⟩ := hentry'.declares
  have hsame : item = item' := by
    refine h.declares_unique hdeclares hdeclares' ?_
    rw [(Item.name_of_header? hheader).1, (Item.name_of_header? hheader').1, hname, hname']
  rw [hsame, hheader'] at hheader
  exact (Option.some.inj hheader).symm

theorem entryPoints_nodup : ((graph.entryPoints signatures).map (·.1)).Nodup := by
  have hnames : graph.modules.Pairwise fun module_ module_' => module_.name ≠ module_'.name :=
    pairwise_map.1 h.names
  rw [List.Nodup, pairwise_map, entryPoints]
  refine List.Pairwise.filterMap _ ?_ (hnames.filter _)
  intro module_ module_' hne point hpoint point' hpoint'
  split at hpoint
  · split at hpoint'
    · obtain ⟨_, _, rfl⟩ := Option.map_eq_some_iff.1 hpoint
      obtain ⟨_, _, rfl⟩ := Option.map_eq_some_iff.1 hpoint'
      exact hne
    · cases hpoint'
  · cases hpoint

include hsignatures

/-- The entry points are the signatures of the functions named `main`. -/
theorem mem_entryPoints_iff {signature : Signature} :
    (owner, signature) ∈ graph.entryPoints signatures ↔
      signature ∈ signatures ∧ signature.name = ⟨owner, entryName⟩ ∧ ∃ header, graph.HasEntry owner header := by
  simp only [entryPoints, userModules, mem_filterMap, mem_filter, Bool.not_eq_true']
  constructor
  · rintro ⟨module_, ⟨hmodule, hprelude⟩, hpoint⟩
    split at hpoint
    · next loc header body hitem =>
      obtain ⟨found, hfound, heq⟩ := Option.map_eq_some_iff.1 hpoint
      cases heq
      obtain ⟨hmem, _, hname⟩ := (h.modules module_ hmodule).item?_eq_some_iff.1 hitem
      exact ⟨mem_of_find?_eq_some hfound, by simpa using find?_some hfound, header, module_, hmodule, hprelude,
        rfl, loc, body, hmem, hname⟩
    · cases hpoint
  · rintro ⟨hmem, hname, header, module_, hmodule, hprelude, rfl, loc, body, hitem, hentry⟩
    refine ⟨module_, ⟨hmodule, hprelude⟩, ?_⟩
    have hfunction : module_.item? entryName = some (.function loc header body) :=
      (h.modules module_ hmodule).item?_eq_some_iff.2 ⟨hitem, rfl, hentry⟩
    rw [hfunction]
    refine Option.map_eq_some_iff.2 ⟨signature, ?_, rfl⟩
    cases hfind : signatures.find? fun signature => signature.name = ⟨module_.name, entryName⟩ with
    | none => exact absurd hname (by simpa using find?_eq_none.1 hfind signature hmem)
    | some found =>
      have hfound : found.name = ⟨module_.name, entryName⟩ := by simpa using find?_some hfind
      rw [h.signatures_unique hsignatures found (mem_of_find?_eq_some hfind) signature hmem (hfound.trans hname.symm)]

include hplain htypes

/-- A function named `main` is an entry point. -/
theorem exists_entryPoint (hentry : graph.HasEntry owner header) :
    ∃ signature, (owner, signature) ∈ graph.entryPoints signatures ∧ signature.typeParams = header.typeParamsOf owner ∧
      graph.Signs owner header signature.params signature.result := by
  obtain ⟨item, hdeclares, hheader, hname⟩ := hentry.declares
  obtain ⟨signature, hmem, hsignature, hsigns⟩ := h.exists_signature hplain htypes hsignatures hdeclares hheader
  rw [hname] at hsignature
  exact ⟨signature, (h.mem_entryPoints_iff hsignatures).2 ⟨hmem, hsignature, header, hentry⟩, hsigns⟩

/-- The entry point is right exactly if there is one at most, which takes and returns nothing. -/
theorem exists_entryModule_iff :
    (∃ entry, graph.entryModule signatures = .ok entry) ↔
      (∀ {owner owner' header header'}, graph.HasEntry owner header → graph.HasEntry owner' header' → owner = owner') ∧
      ∀ {owner header}, graph.HasEntry owner header →
        header.typeParams = [] ∧ header.params = [] ∧ header.result = none := by
  unfold entryModule
  split
  · next hpoints =>
    have hnone : ∀ {owner header}, ¬graph.HasEntry owner header := by
      intro owner header hentry
      obtain ⟨_, hmem, _⟩ := h.exists_entryPoint hplain htypes hsignatures hentry
      rw [hpoints] at hmem
      cases hmem
    exact ⟨fun _ => ⟨fun hentry => absurd hentry hnone, fun hentry => absurd hentry hnone⟩, fun _ => ⟨none, rfl⟩⟩
  · next name signature hpoints =>
    have hpoint : (name, signature) ∈ graph.entryPoints signatures := by
      rw [hpoints]
      exact mem_singleton_self _
    obtain ⟨_, _, header, hentry⟩ := (h.mem_entryPoints_iff hsignatures).1 hpoint
    have hheader : signature.typeParams = [] ∧ signature.type = .function [] .unit ↔
        header.typeParams = [] ∧ header.params = [] ∧ header.result = none := by
      obtain ⟨signature', hmem, htypeParams, hsigns⟩ := h.exists_entryPoint hplain htypes hsignatures hentry
      rw [hpoints] at hmem
      obtain rfl : signature' = signature := (Prod.mk.inj (mem_singleton.1 hmem)).2
      rw [← hsigns.eq_nil_and_unit_iff, htypeParams]
      simp [Header.typeParamsOf, Signature.type, Signature.paramTypes]
    have howner : ∀ {owner header}, graph.HasEntry owner header → owner = name := by
      intro owner header hentry
      obtain ⟨_, hmem, _⟩ := h.exists_entryPoint hplain htypes hsignatures hentry
      rw [hpoints] at hmem
      exact (Prod.mk.inj (mem_singleton.1 hmem)).1
    constructor
    · intro hok
      have hright : signature.typeParams = [] ∧ signature.type = .function [] .unit := by
        by_cases hgeneric : signature.typeParams = []
        · by_cases htype : signature.type = .function [] .unit
          · exact ⟨hgeneric, htype⟩
          · simp [Signature.isGeneric, hgeneric, htype] at hok
        · simp [Signature.isGeneric, hgeneric] at hok
      refine ⟨fun hentry hentry' => (howner hentry).trans (howner hentry').symm, ?_⟩
      intro owner header' hentry'
      obtain rfl := howner hentry'
      rw [h.hasEntry_unique hentry' hentry]
      exact hheader.1 hright
    · rintro ⟨_, hall⟩
      obtain ⟨hgeneric, htype⟩ := hheader.2 (hall hentry)
      exact ⟨some name, by simp [Signature.isGeneric, hgeneric, htype]⟩
  · next first name second rest hpoints =>
    simp only [refuse_eq_ok_iff, exists_false, false_iff]
    rintro ⟨hone, _⟩
    have hnodup : ((graph.entryPoints signatures).map (·.1)).Nodup := h.entryPoints_nodup
    have hentry : ∀ point ∈ graph.entryPoints signatures, ∃ header, graph.HasEntry point.1 header :=
      fun point hpoint => ((h.mem_entryPoints_iff hsignatures).1 hpoint).2.2
    rw [hpoints] at hnodup hentry
    obtain ⟨header, hfirst⟩ := hentry first mem_cons_self
    obtain ⟨header', hsecond⟩ := hentry (name, second) (mem_cons_of_mem _ mem_cons_self)
    rw [map_cons, map_cons, hone hfirst hsecond] at hnodup
    exact (nodup_cons.1 hnodup).1 mem_cons_self

end WellFormed

end Graph

end Smpl
