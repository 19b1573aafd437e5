import Smpl.Proofs.Extend.Program

namespace Smpl

namespace TypedItem

variable {full : Bool} {out : TypedItem}

theorem name_erase_spelled {item : Item} (h : out.erase = item) : (out.spelled full).erase.name = item.name := by
  rw [name_erase, name_spelled, ← name_erase, h]

theorem erase_spelled_of_struct {loc : Location} {name : String} {fields : List (Member TypeExpr)}
    (h : out.erase = .struct loc name fields) : ∃ fields', (out.spelled full).erase = .struct loc name fields' := by
  cases out <;> cases h <;> exact ⟨_, rfl⟩

theorem erase_spelled_eq_opaqueType_iff {loc : Location} {name : String} {typeParams : List String} :
    (out.spelled full).erase = .opaqueType loc name typeParams ↔ out.erase = .opaqueType loc name typeParams := by
  cases out <;> simp [spelled, erase]

/-- A function stays a function of its name. -/
theorem header?_erase_spelled {header : Header TypeExpr} (h : out.erase.header? = some header) :
    ∃ header', (out.spelled full).erase.header? = some header' ∧ header'.name = header.name := by
  cases out <;> cases h <;> exact ⟨_, rfl, rfl⟩

end TypedItem

/-- The items of a program with the modules that declare them. -/
def Graph.declarations (graph : Graph) : List (String × Item) :=
  graph.items.filter fun entry => !entry.2.isUse

theorem Graph.mem_declarations_iff {graph : Graph} {owner : String} {item : Item} :
    (owner, item) ∈ graph.declarations ↔ graph.Declares owner item := by
  simp [declarations, declares_iff_mem_items]

theorem Graph.filterMap_declarations {α : Type} {graph : Graph} {f : String × Item → Option α}
    (h : ∀ entry, entry.2.isUse = true → f entry = none) :
      graph.declarations.filterMap f = graph.items.filterMap f := by
  rw [declarations, List.filterMap_filter]
  refine congrArg (List.filterMap · _) (funext fun entry => ?_)
  cases huse : entry.2.isUse
  · rfl
  · exact (h entry huse).symm

namespace Registry

/-- A declaration and what becomes of it when the item is checked and the paths in it are spelled. -/
def Respells (registry : Registry) (full : String → Bool) (entry entry' : String × Item) : Prop :=
  ∃ out, registry.ChecksItem entry.1 entry.2 out ∧ entry' = (entry.1, (out.spelled (full entry.1)).erase)

/-- A graph holds the modules of a checked program with their paths spelled. A module whose paths are
    not spelled in full has kept its uses. -/
structure Rewritten (registry : Registry) (full : String → Bool) (graph' : Graph) : Prop where
  well : registry.graph.WellFormed
  well' : graph'.WellFormed
  prelude : graph'.prelude = registry.graph.prelude
  names : graph'.modules.map (·.name) = registry.graph.modules.map (·.name)
  declarations : List.Forall₂ (registry.Respells full) registry.graph.declarations graph'.declarations
  uses : ∀ {viewer owner}, full viewer = false → (graph'.Uses viewer owner ↔ registry.graph.Uses viewer owner)
  entries : ∀ {owner}, (∃ header, graph'.HasEntry owner header) ↔ ∃ header, registry.graph.HasEntry owner header

namespace Rewritten

variable {registry : Registry} {full : String → Bool} {graph' : Graph} (h : registry.Rewritten full graph')
  {owner viewer : String} {item item' : Item} {path : Path}
include h

theorem exists_declares (hdeclares : registry.graph.Declares owner item) :
    ∃ out, registry.ChecksItem owner item out ∧ graph'.Declares owner (out.spelled (full owner)).erase := by
  obtain ⟨_, hentry, out, hchecks, rfl⟩ :=
    exists_of_forall₂_of_mem h.declarations (Graph.mem_declarations_iff.2 hdeclares)
  exact ⟨out, hchecks, Graph.mem_declarations_iff.1 hentry⟩

theorem exists_checksItem (hdeclares : graph'.Declares owner item') :
    ∃ item out, registry.graph.Declares owner item ∧ registry.ChecksItem owner item out ∧
      item' = (out.spelled (full owner)).erase := by
  obtain ⟨⟨_, item⟩, hentry, out, hchecks, heq⟩ := exists_of_forall₂_of_mem_right h.declarations
    (Graph.mem_declarations_iff.2 hdeclares)
  cases heq
  exact ⟨item, out, Graph.mem_declarations_iff.1 hentry, hchecks, rfl⟩

theorem exists_name (hdeclares : graph'.Declares owner item') :
    ∃ item, registry.graph.Declares owner item ∧ item.name = item'.name := by
  obtain ⟨item, out, hitem, hchecks, rfl⟩ := h.exists_checksItem hdeclares
  exact ⟨item, hitem, (TypedItem.name_erase_spelled hchecks.erase).symm⟩

/-- A path that is left alone means the same item in a module that keeps its uses, and everywhere if it
    names a module. -/
theorem means (hkept : path.isQualified = false → full viewer = false)
    (hmeans : registry.graph.Means viewer path owner item) :
    ∃ out, registry.ChecksItem owner item out ∧ graph'.Means viewer path owner (out.spelled (full owner)).erase := by
  obtain ⟨out, hchecks, hdeclares'⟩ := h.exists_declares hmeans.declares
  have hname : (out.spelled (full owner)).erase.name = item.name := TypedItem.name_erase_spelled hchecks.erase
  refine ⟨out, hchecks, ?_⟩
  -- Which step of a lookup applies depends on the names of the declarations only, and those stay.
  have hown : (∀ own, registry.graph.Declares viewer own → own.name ≠ item.name) →
      ∀ own, graph'.Declares viewer own → own.name ≠ (out.spelled (full owner)).erase.name := by
    intro hnone own hdeclares heq
    obtain ⟨own', hown', hsame⟩ := h.exists_name hdeclares
    exact hnone own' hown' (hsame.trans (heq.trans hname))
  cases hmeans with
  | own hdeclares => exact hname ▸ .own hdeclares'
  | used hnone huses hdeclares honly =>
    have hviewer := hkept rfl
    refine hname ▸ .used (hown hnone) ((h.uses hviewer).2 huses) hdeclares' fun owner' item' huses' hitem' heq => ?_
    obtain ⟨item₁, hitem₁, hsame⟩ := h.exists_name hitem'
    exact honly owner' item₁ ((h.uses hviewer).1 huses') hitem₁ (hsame.trans (heq.trans hname))
  | prelude hnone hunused hprelude hdeclares =>
    have hviewer := hkept rfl
    refine hname ▸ .prelude (hown hnone) (fun owner' item' huses' hitem' heq => ?_)
      (h.prelude.trans hprelude) hdeclares'
    obtain ⟨item₁, hitem₁, hsame⟩ := h.exists_name hitem'
    exact hunused owner' item₁ ((h.uses hviewer).1 huses') hitem₁ (hsame.trans (heq.trans hname))
  | qualified hdeclares => exact hname ▸ .qualified hdeclares'

theorem exists_find? (hviewer : viewer ∈ registry.graph.modules.map (·.name)) :
    (∃ module_, registry.graph.find? viewer = some module_) ∧ ∃ module_, graph'.find? viewer = some module_ := by
  have hfind : ∀ {graph : Graph}, graph.WellFormed → viewer ∈ graph.modules.map (·.name) →
      ∃ module_, graph.find? viewer = some module_ := by
    intro graph hwell hmem
    obtain ⟨module_, hmodule, hname⟩ := List.mem_map.1 hmem
    exact ⟨module_, hwell.find?_eq_some_iff.2 ⟨hmodule, hname⟩⟩
  exact ⟨hfind h.well hviewer, hfind h.well' (h.names ▸ hviewer)⟩

/-- A path that was found is found after it is spelled, as the item itself or as the one that it was
    taken for. -/
theorem resolvePath {loc : Option Location} {target : Item} {name : ItemName}
    (hviewer : viewer ∈ registry.graph.modules.map (·.name)) (hpath : path.isMissing = false)
    (hfound : registry.graph.resolvePath viewer path loc = .ok (some (owner, item)))
    (htarget : registry.graph.Declares name.moduleName target) (hname : target.name = name.name) :
    ∃ owner' item' out, ((owner', item') = (owner, item) ∨ (owner', item') = (name.moduleName, target)) ∧
      registry.ChecksItem owner' item' out ∧
      graph'.resolvePath viewer (path.spelled (full viewer) (some name)) loc =
        .ok (some (owner', (out.spelled (full owner')).erase)) := by
  obtain ⟨⟨module_, hfind⟩, module', hfind'⟩ := h.exists_find? hviewer
  by_cases hspelled : (full viewer && !path.isQualified) = true
  -- A rewritten path goes to the module that declares the item: nothing that a bare name passes on its way
  -- (own items, uses, the prelude) matters any more. Names with colons in them can make that another item
  -- of the same text than the one that was found.
  · obtain ⟨out, hchecks, hdeclares'⟩ := h.exists_declares htarget
    refine ⟨name.moduleName, target, out, .inr rfl, hchecks, ?_⟩
    have hmeans : graph'.Means viewer ⟨[name.moduleName], _, false⟩ name.moduleName _ := .qualified hdeclares'
    rw [TypedItem.name_erase_spelled hchecks.erase, hname] at hmeans
    rw [Path.spelled, if_pos hspelled]
    exact (h.well'.resolvePath_eq_ok_iff hfind' rfl).2 hmeans
  · obtain ⟨out, hchecks, hmeans⟩ := h.means (fun hbare => by simpa [hbare] using hspelled)
      ((h.well.resolvePath_eq_ok_iff hfind hpath).1 hfound)
    refine ⟨owner, item, out, .inl rfl, hchecks, ?_⟩
    rw [Path.spelled, if_neg hspelled]
    exact (h.well'.resolvePath_eq_ok_iff hfind' hpath).2 hmeans

end Rewritten

end Registry

end Smpl
