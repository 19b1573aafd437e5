import Smpl.Proofs.Typing.Resolution

namespace Smpl.Graph

open List

/-- Another program has the prelude and all modules of this one, each with the same items in some order. -/
structure Within (graph graph' : Graph) : Prop where
  prelude : graph'.prelude = graph.prelude
  modules : ∀ module_ ∈ graph.modules, ∃ module' ∈ graph'.modules, module'.name = module_.name ∧
    ∀ item, item ∈ module'.tree.items ↔ item ∈ module_.tree.items

/-- The modules that a program uses are its own. -/
def Closed (graph : Graph) : Prop :=
  ∀ viewer owner, graph.Uses viewer owner → owner ∈ graph.modules.map (·.name)

theorem Declares.mem_names {graph : Graph} {owner : String} {item : Item} (h : graph.Declares owner item) :
    owner ∈ graph.modules.map (·.name) := by
  obtain ⟨module_, hmodule, hname, _⟩ := h
  exact mem_map.2 ⟨module_, hmodule, hname⟩

/-- An assembled program has all modules that it uses. -/
theorem closed_of_build {trees : List Module} {prelude : Option Module} {graph : Graph}
    (h : build trees prelude = .ok graph) : graph.Closed := by
  obtain ⟨hassembles, rfl⟩ := build_eq_ok_iff.1 h
  rintro viewer owner ⟨module_, hmodule, _, loc, hitem⟩
  rw [map_name_ofTrees]
  rcases (build_spec h).2 module_ hmodule with hgiven | hgiven
  · exact (hassembles.uses module_.tree (mem_append_left _ (Option.mem_toList.2 hgiven)) _ hitem rfl).2
  · exact (hassembles.uses module_.tree (mem_append_right _ hgiven) _ hitem rfl).2

namespace Within

variable {graph graph' : Graph} (h : graph.Within graph') (hwell : graph'.WellFormed) {owner viewer : String}
  {item : Item} {path : Path}
include h

theorem declares (hdeclares : graph.Declares owner item) : graph'.Declares owner item := by
  obtain ⟨module_, hmodule, rfl, hitem, huse⟩ := hdeclares
  obtain ⟨module', hmodule', hname, hitems⟩ := h.modules module_ hmodule
  exact ⟨module', hmodule', hname, (hitems item).2 hitem, huse⟩

include hwell

/-- What another program has in a module of this one is in this one too. -/
theorem mem_items (howner : owner ∈ graph.modules.map (·.name)) {module' : GraphModule}
    (hmodule' : module' ∈ graph'.modules) (hname : module'.name = owner) :
    ∃ module_ ∈ graph.modules, module_.name = owner ∧ ∀ item, item ∈ module'.tree.items ↔
      item ∈ module_.tree.items := by
  obtain ⟨module_, hmodule, rfl⟩ := mem_map.1 howner
  obtain ⟨found, hfound, hfoundName, hitems⟩ := h.modules module_ hmodule
  have hfind := hwell.find?_eq_some_iff.2 ⟨hfound, hfoundName⟩
  have hfind' := hwell.find?_eq_some_iff.2 ⟨hmodule', hname⟩
  obtain rfl : found = module' := Option.some.inj (hfind.symm.trans hfind')
  exact ⟨module_, hmodule, rfl, hitems⟩

/-- A module declares the same in both programs. -/
theorem declares_iff (howner : owner ∈ graph.modules.map (·.name)) :
    graph'.Declares owner item ↔ graph.Declares owner item := by
  refine ⟨fun hdeclares => ?_, h.declares⟩
  obtain ⟨module', hmodule', hname, hitem, huse⟩ := hdeclares
  obtain ⟨module_, hmodule, hname', hitems⟩ := h.mem_items hwell howner hmodule' hname
  exact ⟨module_, hmodule, hname', (hitems item).1 hitem, huse⟩

theorem uses_iff (hviewer : viewer ∈ graph.modules.map (·.name)) :
    graph'.Uses viewer owner ↔ graph.Uses viewer owner := by
  constructor
  · rintro ⟨module', hmodule', hname, loc, hitem⟩
    obtain ⟨module_, hmodule, hname', hitems⟩ := h.mem_items hwell hviewer hmodule' hname
    exact ⟨module_, hmodule, hname', loc, (hitems _).1 hitem⟩
  · rintro ⟨module_, hmodule, rfl, loc, hitem⟩
    obtain ⟨module', hmodule', hname, hitems⟩ := h.modules module_ hmodule
    exact ⟨module', hmodule', hname, loc, (hitems _).2 hitem⟩

/-- A path keeps its meaning, since only the module itself, those that it uses and the prelude matter. -/
theorem means (hclosed : graph.Closed) (hviewer : viewer ∈ graph.modules.map (·.name))
    (hmeans : graph.Means viewer path owner item) : graph'.Means viewer path owner item := by
  have hown : ∀ {name : String}, (∀ own, graph.Declares viewer own → own.name ≠ name) →
      ∀ own, graph'.Declares viewer own → own.name ≠ name := fun hnone own hdeclares =>
    hnone own ((h.declares_iff hwell hviewer).1 hdeclares)
  have hused : ∀ {owner' : String} {item' : Item}, graph'.Uses viewer owner' → graph'.Declares owner' item' →
      graph.Uses viewer owner' ∧ graph.Declares owner' item' := by
    intro owner' item' huses hdeclares
    have huses := (h.uses_iff hwell hviewer).1 huses
    exact ⟨huses, (h.declares_iff hwell (hclosed _ _ huses)).1 hdeclares⟩
  cases hmeans with
  | own hdeclares => exact .own (h.declares hdeclares)
  | used hnone huses hdeclares honly =>
    refine .used (hown hnone) ((h.uses_iff hwell hviewer).2 huses) (h.declares hdeclares) ?_
    intro owner' item' huses' hdeclares' hname
    obtain ⟨huses', hdeclares'⟩ := hused huses' hdeclares'
    exact honly owner' item' huses' hdeclares' hname
  | prelude hnone hnoneUsed hprelude hdeclares =>
    refine .prelude (hown hnone) ?_ (h.prelude.trans hprelude) (h.declares hdeclares)
    intro owner' item' huses' hdeclares'
    obtain ⟨huses', hdeclares'⟩ := hused huses' hdeclares'
    exact hnoneUsed owner' item' huses' hdeclares'
  | qualified hdeclares => exact .qualified (h.declares hdeclares)

/-- What a path finds, it finds in a program that has all of the modules. -/
theorem resolvePath (hwell' : graph.WellFormed) (hclosed : graph.Closed) (hviewer : viewer ∈ graph.modules.map (·.name))
    (hpath : path.isMissing = false) {loc : Option Location} {found : String × Item}
    (hfound : graph.resolvePath viewer path loc = .ok (some found)) :
    graph'.resolvePath viewer path loc = .ok (some found) := by
  obtain ⟨module_, hmodule, rfl⟩ := mem_map.1 hviewer
  obtain ⟨module', hmodule', hname, _⟩ := h.modules module_ hmodule
  have hfind := hwell'.find?_eq_some_iff.2 ⟨hmodule, rfl⟩
  have hfind' := hwell.find?_eq_some_iff.2 ⟨hmodule', hname⟩
  rw [hwell.resolvePath_eq_ok_iff hfind' hpath]
  exact h.means hwell hclosed hviewer ((hwell'.resolvePath_eq_ok_iff hfind hpath).1 hfound)

end Within

end Smpl.Graph
