import Smpl.Proofs.Typing.Resolution

namespace Smpl

open List

theorem GraphModule.mem_itemNames_iff {module_ : GraphModule} {name : String} :
    name ∈ module_.itemNames ↔ module_.declares name = true := by
  simp [itemNames, declares, item?]

namespace Graph

variable {graph : Graph} {viewer name : String} {module_ : GraphModule} {loc : Option Location}

/-- The module itself, a module that it uses or the prelude has an item of that name. -/
def Sees (graph : Graph) (module_ : GraphModule) (name : String) : Prop :=
  module_.declares name = true ∨ graph.providers module_ name ≠ [] ∨
    ∃ prelude, graph.prelude.bind graph.find? = some prelude ∧ prelude.declares name = true

/-- The answer for a name that several used modules have. -/
def ambiguous (name : String) (owners : List String) (loc : Option Location) :
    Except Failure (Option (String × Item)) :=
  .error (.diagnostic { cause := .ambiguousReference name owners, location := loc })

section

variable (hfind : graph.find? viewer = some module_)
include hfind

/-- The visible names of a module are those that can be seen in it. -/
theorem exists_visibleNames :
    ∃ names, graph.visibleNames viewer = .ok names ∧ ∀ name, name ∈ names ↔ graph.Sees module_ name := by
  simp only [visibleNames, get, hfind, ok_bind, pure_eq_ok]
  refine ⟨_, rfl, fun name => ?_⟩
  have hproviders : graph.providers module_ name ≠ [] ↔
      ∃ used ∈ module_.imports.filterMap graph.find?, used.declares name = true := by
    simp only [providers, Ne, filter_eq_nil_iff, not_forall, not_not, exists_prop]
  rw [sortedNames, mem_mergeSort, mem_eraseDups, mem_flatMap, Sees, hproviders]
  simp only [GraphModule.mem_itemNames_iff, cons_append, exists_mem_cons_iff, mem_append,
    Option.mem_toList, or_and_right, exists_or]

/-- The prelude is passed over where the module asked about is the prelude itself, whose items were tried before. -/
theorem preludeFor?_bind_eq_none_iff (hown : module_.declares name = false) :
    ((graph.preludeFor? viewer).bind fun prelude => (prelude.item? name).map (prelude.name, ·)) = none ↔
      ¬∃ prelude, graph.prelude.bind graph.find? = some prelude ∧ prelude.declares name = true := by
  unfold preludeFor?
  cases hprelude : graph.prelude with
  | none => simp
  | some prelude =>
    by_cases hself : prelude = viewer
    · simp [hself, hfind, hown]
    · cases hfound : graph.find? prelude <;> simp [hself, hfound, GraphModule.declares]

/-- Nothing is found under a name exactly if it cannot be seen. -/
theorem resolve_eq_ok_none_iff : graph.resolve viewer name loc = .ok none ↔ ¬graph.Sees module_ name := by
  simp only [resolve, get, hfind, ok_bind, Sees]
  cases hitem : module_.item? name with
  | some item => simp [GraphModule.declares, hitem]
  | none =>
    have hown : module_.declares name = false := by simp [GraphModule.declares, hitem]
    rcases hproviders : graph.providers module_ name with _ | ⟨provider, _ | _⟩
    · simpa [hown] using preludeFor?_bind_eq_none_iff hfind hown
    · have hprovider : provider.declares name = true :=
        (mem_filter.1 (show provider ∈ graph.providers module_ name by simp [hproviders])).2
      obtain ⟨item, hfound⟩ := Option.isSome_iff_exists.1 hprovider
      simp [hfound]
    · simp

/-- Looking up a name in a module of the graph fails only if several used modules have it. -/
theorem resolve_eq_error_iff {failure : Failure} : graph.resolve viewer name loc = .error failure ↔
    module_.item? name = none ∧ 1 < (graph.providers module_ name).length ∧
      .error failure = ambiguous name ((graph.providers module_ name).map (·.name)) loc := by
  simp only [resolve, get, hfind, ok_bind]
  cases module_.item? name with
  | some item => simp
  | none => rcases graph.providers module_ name with _ | ⟨provider, _ | _⟩ <;> simp [ambiguous, eq_comm]

end

/-- Several used modules have a name just if two modules of different names do. -/
theorem WellFormed.one_lt_length_providers_iff (h : graph.WellFormed) (hfind : graph.find? viewer = some module_) :
    1 < (graph.providers module_ name).length ↔
      ∃ owner owner', owner ≠ owner' ∧ graph.Uses viewer owner ∧ graph.Uses viewer owner' ∧
        (∃ item, graph.Declares owner item ∧ item.name = name) ∧
        ∃ item, graph.Declares owner' item ∧ item.name = name := by
  have hnodup : (graph.providers module_ name).Nodup := h.providers_nodup hfind
  have hmem : ∀ provider ∈ graph.providers module_ name, _ := fun provider => (h.mem_providers_iff hfind).1
  constructor
  · intro hlength
    obtain ⟨first, second, others, hproviders⟩ : ∃ first second others,
        graph.providers module_ name = first :: second :: others := by
      rcases hproviders : graph.providers module_ name with _ | ⟨first, _ | ⟨second, others⟩⟩
      · simp [hproviders] at hlength
      · simp [hproviders] at hlength
      · exact ⟨first, second, others, rfl⟩
    rw [hproviders, nodup_cons] at hnodup
    rw [hproviders] at hmem
    obtain ⟨huses, hfirst, hitem⟩ := hmem first mem_cons_self
    obtain ⟨huses', hsecond, hitem'⟩ := hmem second (mem_cons_of_mem _ mem_cons_self)
    refine ⟨first.name, second.name, fun hname => hnodup.1 ?_, huses, huses', hitem, hitem'⟩
    rw [hname, hsecond, Option.some.injEq] at hfirst
    exact hfirst ▸ mem_cons_self
  · rintro ⟨owner, owner', hne, huses, huses', ⟨item, hitem, hname⟩, item', hitem', hname'⟩
    obtain ⟨first, hfirst, rfl, _⟩ := h.exists_provider hfind huses hitem hname
    obtain ⟨second, hsecond, rfl, _⟩ := h.exists_provider hfind huses' hitem' hname'
    by_contra hlength
    obtain ⟨only, hproviders⟩ := length_eq_one_iff.1
      (Nat.le_antisymm (Nat.not_lt.1 hlength) (length_pos_of_mem hfirst))
    rw [hproviders, mem_singleton] at hfirst hsecond
    exact hne (hfirst ▸ hsecond ▸ rfl)

/-- In every module of an assembled program, the names that can be seen are those for which looking them up finds an
    item or reports an ambiguity. Ambiguous are just the names that the module does not declare and two of the modules
    that it uses do. An item that is found is found again, from every module, under the path of its owner. -/
theorem name_queries_agree {trees : List Module} {prelude : Option Module} (hbuild : build trees prelude = .ok graph)
    (hmodule : module_ ∈ graph.modules) (name : String) (loc : Option Location) :
    (∃ names, graph.visibleNames module_.name = .ok names ∧
      (name ∉ names ↔ graph.resolve module_.name name loc = .ok none) ∧
      (name ∈ names ↔ (∃ found, graph.resolve module_.name name loc = .ok (some found)) ∨
        ∃ owners, graph.resolve module_.name name loc = ambiguous name owners loc)) ∧
    ((∃ owners, graph.resolve module_.name name loc = ambiguous name owners loc) ↔
      (∀ item, graph.Declares module_.name item → item.name ≠ name) ∧
      ∃ owner owner', owner ≠ owner' ∧ graph.Uses module_.name owner ∧ graph.Uses module_.name owner' ∧
        (∃ item, graph.Declares owner item ∧ item.name = name) ∧
        ∃ item, graph.Declares owner' item ∧ item.name = name) ∧
    ∀ owner item, graph.resolve module_.name name loc = .ok (some (owner, item)) →
      ∀ other ∈ graph.modules, ∀ loc',
        graph.resolvePath other.name ⟨[owner], name, false⟩ loc' = .ok (some (owner, item)) := by
  have hwell := (build_spec hbuild).1
  have hfinds : ∀ found ∈ graph.modules, graph.find? found.name = some found :=
    fun found hfound => hwell.find?_eq_some_iff.2 ⟨hfound, rfl⟩
  have hfind := hfinds module_ hmodule
  obtain ⟨names, hnames, hsees⟩ := exists_visibleNames hfind
  have hnone : name ∉ names ↔ graph.resolve module_.name name loc = .ok none := by
    rw [hsees, resolve_eq_ok_none_iff hfind]
  refine ⟨⟨names, hnames, hnone, ?_⟩, ?_, ?_⟩
  · rw [← not_iff_not, hnone]
    cases hresolve : graph.resolve module_.name name loc with
    | error failure =>
      rw [((resolve_eq_error_iff hfind).1 hresolve).2.2]
      simp [ambiguous]
    | ok found => cases found <;> simp [ambiguous]
  · rw [← hwell.item?_eq_none_iff hfind, ← hwell.one_lt_length_providers_iff hfind]
    constructor
    · rintro ⟨owners, hresolve⟩
      obtain ⟨hown, hseveral, _⟩ := (resolve_eq_error_iff hfind).1 hresolve
      exact ⟨hown, hseveral⟩
    · rintro ⟨hown, hseveral⟩
      exact ⟨_, (resolve_eq_error_iff hfind).2 ⟨hown, hseveral, rfl⟩⟩
  · intro owner item hresolve other hother loc'
    have hmeans := hwell.means_of_resolve hfind hresolve
    obtain rfl : item.name = name := by cases hmeans <;> rfl
    exact (hwell.resolvePath_eq_ok_iff (hfinds other hother) rfl).2 (.qualified hmeans.declares)

/-- Two modules that use each other, and a name that one of them finds twice. -/
theorem name_queries_agree_cyclic :
    let loc : Location := ⟨"m", 1, 1⟩
    let trees : List Module := [⟨loc, some "a", [.use loc "b", .use loc "c"], "m"⟩,
      ⟨loc, some "b", [.use loc "a", .struct loc "S" []], "m"⟩, ⟨loc, some "c", [.struct loc "S" []], "m"⟩]
    build trees none = .ok (ofTrees trees none) ∧
      (ofTrees trees none).resolve "a" "S" none = ambiguous "S" ["b", "c"] none ∧
      ∃ names, (ofTrees trees none).visibleNames "a" = .ok names ∧ "S" ∈ names := by
  intro loc trees
  have hbuild : build trees none = .ok (ofTrees trees none) := by rfl
  obtain ⟨⟨names, hnames, _, hsees⟩, _⟩ := name_queries_agree hbuild mem_cons_self "S" none
  exact ⟨hbuild, rfl, names, hnames, hsees.2 (.inr ⟨["b", "c"], rfl⟩)⟩

end Graph

end Smpl
