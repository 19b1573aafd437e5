import Smpl.Proofs.Graph.Assembly

namespace Smpl

open List

variable {graph : Graph} {viewer owner : String} {path : Path} {item : Item}

theorem Graph.Means.isMissing (h : graph.Means viewer path owner item) : path.isMissing = false := by
  cases h <;> rfl

theorem Graph.Means.declares (h : graph.Means viewer path owner item) : graph.Declares owner item := by
  cases h <;> assumption

namespace Graph.WellFormed

variable {graph : Graph} (h : graph.WellFormed) {name : String} {module_ : GraphModule}
include h

theorem find?_eq_some_iff : graph.find? name = some module_ ↔ module_ ∈ graph.modules ∧ module_.name = name :=
  find?_eq_some_iff_of_nodup h.names

theorem collects (hfind : graph.find? name = some module_) : module_.Collects :=
  h.modules module_ (h.find?_eq_some_iff.1 hfind).1

theorem declares_iff :
    graph.Declares owner item ↔ ∃ module_, graph.find? owner = some module_ ∧ module_.item? item.name = some item := by
  constructor
  · rintro ⟨module_, hmodule, hname, hitem, huse⟩
    exact ⟨module_, h.find?_eq_some_iff.2 ⟨hmodule, hname⟩,
      (h.modules module_ hmodule).item?_eq_some_iff.2 ⟨hitem, huse, rfl⟩⟩
  · rintro ⟨module_, hfind, hitem⟩
    obtain ⟨hmodule, hname⟩ := h.find?_eq_some_iff.1 hfind
    obtain ⟨hitem, huse, _⟩ := (h.modules module_ hmodule).item?_eq_some_iff.1 hitem
    exact ⟨module_, hmodule, hname, hitem, huse⟩

/-- A module declares one item of a name. -/
theorem declares_unique {item' : Item} (hitem : graph.Declares owner item) (hitem' : graph.Declares owner item')
    (hname : item.name = item'.name) : item = item' := by
  obtain ⟨module_, hfind, hsome⟩ := h.declares_iff.1 hitem
  obtain ⟨module_', hfind', hsome'⟩ := h.declares_iff.1 hitem'
  rw [hfind, Option.some.injEq] at hfind'
  rw [← hfind', ← hname, hsome, Option.some.injEq] at hsome'
  exact hsome'

section

variable {viewer name : String} {module_ : GraphModule} (hfind : graph.find? viewer = some module_)
include hfind

theorem item?_eq_some_iff : module_.item? name = some item ↔ graph.Declares viewer item ∧ item.name = name := by
  constructor
  · intro hitem
    have hname := ((h.collects hfind).item?_eq_some_iff.1 hitem).2.2
    exact ⟨h.declares_iff.2 ⟨module_, hfind, hname ▸ hitem⟩, hname⟩
  · rintro ⟨hdeclares, rfl⟩
    obtain ⟨module_', hfind', hitem⟩ := h.declares_iff.1 hdeclares
    rw [hfind, Option.some.injEq] at hfind'
    exact hfind' ▸ hitem

theorem item?_eq_none_iff :
    module_.item? name = none ↔ ∀ item, graph.Declares viewer item → item.name ≠ name := by
  rw [Option.eq_none_iff_forall_ne_some]
  constructor
  · intro hnone item hdeclares hname
    exact hnone item ((h.item?_eq_some_iff hfind).2 ⟨hdeclares, hname⟩)
  · intro hnone item hsome
    obtain ⟨hdeclares, hname⟩ := (h.item?_eq_some_iff hfind).1 hsome
    exact hnone item hdeclares hname

theorem uses_iff : graph.Uses viewer owner ↔ owner ∈ module_.imports := by
  rw [(h.collects hfind).imports, mem_map]
  constructor
  · rintro ⟨module_', hmodule', hname, loc, huse⟩
    have hfind' := h.find?_eq_some_iff.2 ⟨hmodule', hname⟩
    rw [hfind, Option.some.injEq] at hfind'
    exact ⟨.use loc owner, mem_filter.2 ⟨hfind' ▸ huse, rfl⟩, rfl⟩
  · rintro ⟨item, hitem, rfl⟩
    obtain ⟨hitem, huse⟩ := mem_filter.1 hitem
    obtain ⟨hmodule, hname⟩ := h.find?_eq_some_iff.1 hfind
    cases item with
    | use loc owner => exact ⟨module_, hmodule, hname, loc, hitem⟩
    | _ => cases huse

/-- The providers of a name are the used modules that declare it. -/
theorem mem_providers_iff {provider : GraphModule} :
    provider ∈ graph.providers module_ name ↔
      graph.Uses viewer provider.name ∧ graph.find? provider.name = some provider ∧
        ∃ item, graph.Declares provider.name item ∧ item.name = name := by
  have hdeclares : graph.find? provider.name = some provider →
      (provider.declares name = true ↔ ∃ item, graph.Declares provider.name item ∧ item.name = name) := by
    intro hprovider
    simp only [GraphModule.declares, Option.isSome_iff_exists, h.item?_eq_some_iff hprovider]
  simp only [providers, mem_filter, mem_filterMap, h.uses_iff hfind]
  constructor
  · rintro ⟨⟨owner, howner, hprovider⟩, hitem⟩
    obtain rfl := (h.find?_eq_some_iff.1 hprovider).2
    exact ⟨howner, hprovider, (hdeclares hprovider).1 hitem⟩
  · rintro ⟨howner, hprovider, hitem⟩
    exact ⟨⟨provider.name, howner, hprovider⟩, (hdeclares hprovider).2 hitem⟩

theorem providers_nodup : (graph.providers module_ name).Nodup := by
  apply List.Nodup.filter
  refine List.Nodup.filterMap ?_ (h.collects hfind).importNames
  intro owner owner' provider howner howner'
  rw [← (h.find?_eq_some_iff.1 howner).2, ← (h.find?_eq_some_iff.1 howner').2]

theorem exists_provider (huses : graph.Uses viewer owner) (hdeclares : graph.Declares owner item)
    (hname : item.name = name) :
    ∃ provider ∈ graph.providers module_ name, provider.name = owner ∧ provider.item? name = some item := by
  obtain ⟨provider, hprovider, hitem⟩ := h.declares_iff.1 hdeclares
  obtain rfl := (h.find?_eq_some_iff.1 hprovider).2
  exact ⟨provider, (h.mem_providers_iff hfind).2 ⟨huses, hprovider, item, hdeclares, hname⟩, rfl, hname ▸ hitem⟩

/-- The item that a bare name is resolved to is one that it means. -/
theorem means_of_resolve {loc : Option Location} (hresolve : graph.resolve viewer name loc = .ok (some (owner, item))) :
    graph.Means viewer (.bare name) owner item := by
  simp only [resolve, get, hfind, ok_bind] at hresolve
  split at hresolve
  · next own hown =>
    cases hresolve
    obtain ⟨hdeclares, rfl⟩ := (h.item?_eq_some_iff hfind).1 hown
    exact .own hdeclares
  · next hown =>
    have hown := (h.item?_eq_none_iff hfind).1 hown
    split at hresolve
    · next hproviders =>
      rw [pure_eq_ok_iff, Option.bind_eq_some_iff] at hresolve
      obtain ⟨prelude, hprelude, hitem⟩ := hresolve
      rw [Option.map_eq_some_iff] at hitem
      obtain ⟨found, hfound, hpair⟩ := hitem
      cases hpair
      unfold preludeFor? at hprelude
      split at hprelude
      · next preludeName hname =>
        split at hprelude
        · cases hprelude
        · obtain ⟨hdeclares, rfl⟩ := (h.item?_eq_some_iff hprelude).1 hfound
          obtain rfl := (h.find?_eq_some_iff.1 hprelude).2
          refine .prelude hown ?_ hname hdeclares
          intro owner' item' huses hdeclares' heq
          obtain ⟨provider, hmem, _⟩ := h.exists_provider hfind huses hdeclares' heq
          rw [hproviders] at hmem
          cases hmem
      · cases hprelude
    · next provider hproviders =>
      rw [pure_eq_ok_iff, Option.map_eq_some_iff] at hresolve
      obtain ⟨found, hfound, hpair⟩ := hresolve
      cases hpair
      have hmem : provider ∈ graph.providers module_ name := by simp [hproviders]
      obtain ⟨huses, hprovider, _⟩ := (h.mem_providers_iff hfind).1 hmem
      obtain ⟨hdeclares, rfl⟩ := (h.item?_eq_some_iff hprovider).1 hfound
      refine .used hown huses hdeclares ?_
      intro owner' item' huses' hdeclares' heq
      obtain ⟨other, hmem', rfl, _⟩ := h.exists_provider hfind huses' hdeclares' heq
      rw [hproviders, mem_singleton] at hmem'
      rw [hmem']
    · cases hresolve

/-- The item that a bare name means is found. -/
theorem resolve_of_means (loc : Option Location) (hmeans : graph.Means viewer path owner item)
    (hpath : path.modules = []) : graph.resolve viewer path.name loc = .ok (some (owner, item)) := by
  simp only [resolve, get, hfind, ok_bind]
  cases hmeans with
  | own hdeclares =>
    have hitem := (h.item?_eq_some_iff hfind).2 ⟨hdeclares, rfl⟩
    simp only [Path.bare, hitem, pure_eq_ok]
  | used hown huses hdeclares hunique =>
    have hitem := (h.item?_eq_none_iff hfind).2 hown
    obtain ⟨provider, hmem, rfl, hfound⟩ := h.exists_provider hfind huses hdeclares rfl
    have hproviders : graph.providers module_ item.name = [provider] := by
      by_contra hne
      rcases ((h.providers_nodup hfind).ne_singleton_iff provider).1 hne with hnil | ⟨other, hother, hneq⟩
      · rw [hnil] at hmem
        cases hmem
      · obtain ⟨huses', hfind', item', hdeclares', hname⟩ := (h.mem_providers_iff hfind).1 hother
        have hprovider := ((h.mem_providers_iff hfind).1 hmem).2.1
        rw [hunique other.name item' huses' hdeclares' hname, hprovider, Option.some.injEq] at hfind'
        exact hneq hfind'.symm
    simp only [Path.bare, hitem, hproviders, hfound, Option.map_some, pure_eq_ok]
  | prelude hown hused hprelude hdeclares =>
    have hitem := (h.item?_eq_none_iff hfind).2 hown
    have hproviders : graph.providers module_ item.name = [] := by
      refine eq_nil_iff_forall_not_mem.2 fun provider hmem => ?_
      obtain ⟨huses, _, item', hdeclares', hname⟩ := (h.mem_providers_iff hfind).1 hmem
      exact hused provider.name item' huses hdeclares' hname
    obtain ⟨prelude, hfind', hfound⟩ := h.declares_iff.1 hdeclares
    have hother : owner ≠ viewer := by
      rintro rfl
      exact hown item hdeclares rfl
    have hfor : graph.preludeFor? viewer = some prelude := by simp only [preludeFor?, hprelude, if_neg hother, hfind']
    rw [(h.find?_eq_some_iff.1 hfind').2.symm]
    simp only [Path.bare, hitem, hproviders, hfor, Option.bind_some, hfound, Option.map_some, pure_eq_ok]
  | qualified => cases hpath

/-- Looking up a path finds exactly the item that it means. -/
theorem resolvePath_eq_ok_iff {loc : Option Location} (hpath : path.isMissing = false) :
    graph.resolvePath viewer path loc = .ok (some (owner, item)) ↔ graph.Means viewer path owner item := by
  obtain ⟨modules, name, isMissing⟩ := path
  obtain rfl : isMissing = false := hpath
  constructor
  · intro hresolve
    unfold resolvePath at hresolve
    split at hresolve
    · next hmodules =>
      obtain rfl : modules = [] := hmodules
      exact h.means_of_resolve hfind hresolve
    · next target hmodules =>
      obtain rfl : modules = [target] := hmodules
      split at hresolve
      · cases hresolve
      · next found hfound =>
        rw [Except.ok.injEq, Option.map_eq_some_iff] at hresolve
        obtain ⟨item, hitem, hpair⟩ := hresolve
        cases hpair
        obtain ⟨hdeclares, rfl⟩ := (h.item?_eq_some_iff hfound).1 hitem
        obtain rfl := (h.find?_eq_some_iff.1 hfound).2
        exact .qualified hdeclares
    · cases hresolve
  · intro hmeans
    by_cases hmodules : modules = []
    · subst hmodules
      exact h.resolve_of_means hfind loc hmeans rfl
    · cases hmeans with
      | qualified hdeclares =>
        obtain ⟨found, hfound, hitem⟩ := h.declares_iff.1 hdeclares
        simp only [resolvePath, hfound, hitem, Option.map_some, (h.find?_eq_some_iff.1 hfound).2]
      | _ => cases hmodules rfl

end

end Graph.WellFormed

end Smpl
