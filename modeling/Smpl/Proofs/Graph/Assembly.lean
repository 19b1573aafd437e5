import Mathlib.Data.List.Nodup
import Smpl.Graph.Build
import Smpl.Proofs.Checker.Declaration

namespace Smpl

open List

theorem find?_eq_some_iff_of_nodup {α β : Type} [DecidableEq β] {key : α → β} {as : List α} {a : α} {b : β}
    (hnodup : (as.map key).Nodup) : as.find? (fun a => decide (key a = b)) = some a ↔ a ∈ as ∧ key a = b := by
  constructor
  · intro h
    exact ⟨mem_of_find?_eq_some h, by simpa using find?_some h⟩
  · rintro ⟨hmem, rfl⟩
    have hsome : (as.find? fun other => decide (key other = key a)).isSome = true :=
      find?_isSome.2 ⟨a, hmem, decide_eq_true rfl⟩
    obtain ⟨found, hfound⟩ := Option.isSome_iff_exists.1 hsome
    have hkey : key found = key a := by simpa using find?_some hfound
    rw [hfound, inj_on_of_nodup_map hnodup (mem_of_find?_eq_some hfound) hmem hkey]

/-- What a module of a graph is collected from its tree: the items, which have different names, and the
    names of the used modules, which differ too. -/
structure GraphModule.Collects (module_ : GraphModule) : Prop where
  name : module_.name = module_.tree.knownName
  items : module_.items = module_.tree.items.filter fun item => !item.isUse
  imports : module_.imports = (module_.tree.items.filter Item.isUse).map Item.name
  itemNames : (module_.items.map Item.name).Nodup
  importNames : module_.imports.Nodup
  primitive : ∀ item ∈ module_.items, item.name ∉ primitiveNames

/-- An item of a module is found under its name. -/
theorem GraphModule.Collects.item?_eq_some_iff {module_ : GraphModule} (h : module_.Collects) {name : String}
    {item : Item} :
    module_.item? name = some item ↔ item ∈ module_.tree.items ∧ item.isUse = false ∧ item.name = name := by
  rw [GraphModule.item?, find?_eq_some_iff_of_nodup h.itemNames, h.items]
  simp [and_assoc]

namespace Collected

variable {collected after : Collected}

/-- What holds while items are collected. -/
structure Distinct (collected : Collected) : Prop where
  items : (collected.items.map Item.name).Nodup
  uses : (collected.uses.map Item.name).Nodup
  primitive : ∀ item ∈ collected.items, item.name ∉ primitiveNames

/-- The items and uses of a file. -/
def ofItems (items : List Item) : Collected where
  items := items.filter fun item => !item.isUse
  uses := items.filter Item.isUse

/-- Both lists of one collection before those of another. -/
def append (collected others : Collected) : Collected where
  items := collected.items ++ others.items
  uses := collected.uses ++ others.uses

theorem ofItems_append (items items' : List Item) :
    ofItems (items ++ items') = (ofItems items).append (ofItems items') := by
  simp [ofItems, append]

theorem append_assoc (first second third : Collected) :
    (first.append second).append third = first.append (second.append third) := by
  simp [append]

theorem Distinct.of_append {others : Collected} (h : (collected.append others).Distinct) : collected.Distinct where
  items := (nodup_append.1 (map_append ▸ h.items)).1
  uses := (nodup_append.1 (map_append ▸ h.uses)).1
  primitive := fun item hitem => h.primitive item (mem_append_left _ hitem)

/-- An item can be added exactly if it can be told apart from those that are there. -/
theorem add_eq_ok_iff {item : Item} (h : collected.Distinct) :
    collected.add item = .ok after ↔
      (collected.append (ofItems [item])).Distinct ∧ after = collected.append (ofItems [item]) := by
  have hnew (items : List Item) : items.find? (fun other => decide (other.name = item.name)) = none ↔
      item.name ∉ items.map Item.name := by simp
  have hnodup (items : List Item) : ((items ++ [item]).map Item.name).Nodup ↔
      item.name ∉ items.map Item.name ∧ (items.map Item.name).Nodup := by
    rw [map_append, map_singleton, nodup_append_comm, singleton_append, nodup_cons]
  cases huse : item.isUse with
  | true =>
    have happend : collected.append (ofItems [item]) = ⟨collected.items, collected.uses ++ [item]⟩ := by
      simp [append, ofItems, huse]
    rw [happend, add, if_pos huse]
    cases hfind : collected.uses.find? fun use => decide (use.name = item.name) with
    | none =>
      have hdistinct : Distinct ⟨collected.items, collected.uses ++ [item]⟩ :=
        ⟨h.items, (hnodup _).2 ⟨(hnew _).1 hfind, h.uses⟩, h.primitive⟩
      simp [hdistinct, eq_comm]
    | some first =>
      have hsame : ¬ Distinct ⟨collected.items, collected.uses ++ [item]⟩ := fun hdistinct => by
        rw [(hnew _).2 ((hnodup _).1 hdistinct.uses).1] at hfind
        cases hfind
      simp [hsame]
  | false =>
    have happend : collected.append (ofItems [item]) = ⟨collected.items ++ [item], collected.uses⟩ := by
      simp [append, ofItems, huse]
    rw [happend, add, if_neg (by simp [huse])]
    by_cases hprimitive : item.name ∈ primitiveNames
    · have hnone : ¬ Distinct ⟨collected.items ++ [item], collected.uses⟩ := fun hdistinct =>
        hdistinct.primitive item (by simp) hprimitive
      simp [hprimitive, hnone]
    rw [if_neg (by simpa using hprimitive)]
    cases hfind : collected.items.find? fun other => decide (other.name = item.name) with
    | none =>
      have hdistinct : Distinct ⟨collected.items ++ [item], collected.uses⟩ :=
        ⟨(hnodup _).2 ⟨(hnew _).1 hfind, h.items⟩, h.uses,
          forall_mem_append.2 ⟨h.primitive, forall_mem_singleton.2 hprimitive⟩⟩
      simp [hdistinct, eq_comm]
    | some first =>
      have hsame : ¬ Distinct ⟨collected.items ++ [item], collected.uses⟩ := fun hdistinct => by
        rw [(hnew _).2 ((hnodup _).1 hdistinct.items).1] at hfind
        cases hfind
      simp [hsame]

/-- Items are collected exactly if they can all be told apart. -/
theorem foldlM_add_eq_ok_iff {items : List Item} (h : collected.Distinct) :
    items.foldlM add collected = .ok after ↔
      (collected.append (ofItems items)).Distinct ∧ after = collected.append (ofItems items) := by
  induction items generalizing collected with
  | nil =>
    have hnil : collected.append (ofItems []) = collected := by simp [append, ofItems]
    simp [hnil, h, eq_comm]
  | cons item items ih =>
    rw [← singleton_append, ofItems_append, ← append_assoc, singleton_append, foldlM_cons, bind_eq_ok_iff]
    constructor
    · rintro ⟨next, hadd, hrest⟩
      obtain ⟨hdistinct, rfl⟩ := (add_eq_ok_iff h).1 hadd
      exact (ih hdistinct).1 hrest
    · intro hall
      have hdistinct := hall.1.of_append
      exact ⟨_, (add_eq_ok_iff h).2 ⟨hdistinct, rfl⟩, (ih hdistinct).2 hall⟩

end Collected

/-- A module with the items and imports of its file. -/
def GraphModule.ofTree (isPrelude : Bool) (tree : Module) : GraphModule where
  name := tree.knownName
  tree := tree
  items := tree.items.filter fun item => !item.isUse
  imports := (tree.items.filter Item.isUse).map Item.name
  isPrelude := isPrelude

/-- A file whose items can be told apart by their names. -/
def Module.Distinct (tree : Module) : Prop :=
  (Collected.ofItems tree.items).Distinct

/-- A module is collected exactly if no use is repeated and no name is declared twice. -/
theorem GraphModule.ofModule_eq_ok_iff {isPrelude : Bool} {tree : Module} {module_ : GraphModule} :
    GraphModule.ofModule isPrelude tree = .ok module_ ↔
      tree.Distinct ∧ module_ = GraphModule.ofTree isPrelude tree := by
  have hstart : (Collected.mk [] []).Distinct := ⟨.nil, .nil, by simp⟩
  have hempty : (Collected.mk [] []).append (Collected.ofItems tree.items) = Collected.ofItems tree.items := by
    simp [Collected.append]
  simp only [GraphModule.ofModule, bind_eq_ok_iff, pure_eq_ok_iff,
    Collected.foldlM_add_eq_ok_iff hstart, hempty]
  constructor
  · rintro ⟨_, ⟨hdistinct, rfl⟩, rfl⟩
    exact ⟨hdistinct, rfl⟩
  · rintro ⟨hdistinct, rfl⟩
    exact ⟨_, ⟨hdistinct, rfl⟩, rfl⟩

theorem Module.Distinct.collects {tree : Module} (h : tree.Distinct) (isPrelude : Bool) :
    (GraphModule.ofTree isPrelude tree).Collects :=
  ⟨rfl, rfl, rfl, h.items, h.uses, h.primitive⟩

namespace Graph

variable {trees : List Module} {prelude : Option Module} {module_ : GraphModule} {graph after : Graph} {name : String}
  {u : Unit}

/-- What holds of every graph that is built: the modules are collected from their trees and have
    different names. -/
structure WellFormed (graph : Graph) : Prop where
  modules : ∀ module_ ∈ graph.modules, module_.Collects
  names : (graph.modules.map (·.name)).Nodup

/-- The modules of files, without any check. -/
def ofTrees (trees : List Module) (prelude : Option Module) : Graph where
  modules := prelude.toList.map (GraphModule.ofTree true) ++ trees.map (GraphModule.ofTree false)
  prelude := prelude.map Module.knownName

/-- The files of a program can be assembled: each has distinct items, their names differ, and each
    uses others only. -/
structure Assembles (trees : List Module) (prelude : Option Module) : Prop where
  distinct : ∀ tree ∈ prelude.toList ++ trees, tree.Distinct
  names : ((prelude.toList ++ trees).map Module.knownName).Nodup
  uses : ∀ tree ∈ prelude.toList ++ trees, ∀ use ∈ tree.items, use.isUse = true →
    use.name ≠ tree.knownName ∧ use.name ∈ (prelude.toList ++ trees).map Module.knownName

theorem map_name_ofTrees (trees : List Module) (prelude : Option Module) :
    (ofTrees trees prelude).modules.map (·.name) = (prelude.toList ++ trees).map Module.knownName := by
  simp [ofTrees, GraphModule.ofTree, Function.comp_def]

theorem map_tree_ofTrees (trees : List Module) (prelude : Option Module) :
    (ofTrees trees prelude).modules.map (·.tree) = prelude.toList ++ trees := by
  simp [ofTrees, GraphModule.ofTree, Function.comp_def]

theorem of_mem_ofTrees (h : module_ ∈ (ofTrees trees prelude).modules) :
    module_.name = module_.tree.knownName ∧ module_.tree ∈ prelude.toList ++ trees := by
  rw [← map_tree_ofTrees]
  refine ⟨?_, mem_map_of_mem h⟩
  rcases mem_append.1 h with hfirst | hlater
  · obtain ⟨tree, _, rfl⟩ := mem_map.1 hfirst
    rfl
  · obtain ⟨tree, _, rfl⟩ := mem_map.1 hlater
    rfl

theorem map_tree_userModules_ofTrees (trees : List Module) (prelude : Option Module) :
    (ofTrees trees prelude).userModules.map (·.tree) = trees := by
  simp [userModules, ofTrees, GraphModule.ofTree, filter_map, Function.comp_def]

theorem contains_iff : graph.contains name = true ↔ name ∈ graph.modules.map (·.name) := by
  simp [contains, find?]

theorem find?_eq_none_iff : graph.find? name = none ↔ name ∉ graph.modules.map (·.name) := by
  rw [← contains_iff, contains, Bool.not_eq_true, Option.isSome_eq_false_iff, Option.isNone_iff_eq_none]

/-- A module is added exactly if its items can be told apart and its name is new. -/
theorem addModule_eq_ok_iff {tree : Module} :
    graph.addModule tree = .ok after ↔ tree.Distinct ∧ tree.knownName ∉ graph.modules.map (·.name) ∧
      after = { graph with modules := graph.modules ++ [GraphModule.ofTree false tree] } := by
  simp only [addModule, bind_eq_ok_iff, GraphModule.ofModule_eq_ok_iff]
  constructor
  · rintro ⟨_, ⟨hdistinct, rfl⟩, h⟩
    split at h
    · cases h
    · next hnew =>
      cases h
      exact ⟨hdistinct, find?_eq_none_iff.1 hnew, rfl⟩
  · rintro ⟨hdistinct, hnew, rfl⟩
    refine ⟨_, ⟨hdistinct, rfl⟩, ?_⟩
    have hnone : graph.find? (GraphModule.ofTree false tree).name = none := find?_eq_none_iff.2 hnew
    rw [hnone]
    rfl

theorem freshNames_append_singleton_iff {seen names : List String} :
    FreshNames (seen ++ [name]) names ↔ FreshNames (name :: seen) names := by
  simp [FreshNames, and_comm]

/-- Modules are added exactly if each can be collected and their names differ. -/
theorem foldlM_addModule_eq_ok_iff :
    trees.foldlM addModule graph = .ok after ↔ (∀ tree ∈ trees, tree.Distinct) ∧
      FreshNames (graph.modules.map (·.name)) (trees.map Module.knownName) ∧
      after = { graph with modules := graph.modules ++ trees.map (GraphModule.ofTree false) } := by
  induction trees generalizing graph with
  | nil => simp [FreshNames, @eq_comm _ graph]
  | cons tree trees ih =>
    have hname : (GraphModule.ofTree false tree).name = tree.knownName := rfl
    simp only [foldlM_cons, bind_eq_ok_iff, addModule_eq_ok_iff, ih, forall_mem_cons, map_cons,
      freshNames_cons_iff]
    constructor
    · rintro ⟨_, ⟨hdistinct, hnew, rfl⟩, hothers, hfresh, rfl⟩
      rw [map_append, map_singleton, freshNames_append_singleton_iff, hname] at hfresh
      exact ⟨⟨hdistinct, hothers⟩, ⟨hnew, hfresh⟩, by simp⟩
    · rintro ⟨⟨hdistinct, hothers⟩, ⟨hnew, hfresh⟩, rfl⟩
      refine ⟨_, ⟨hdistinct, hnew, rfl⟩, hothers, ?_, by simp⟩
      rw [map_append, map_singleton, freshNames_append_singleton_iff, hname]
      exact hfresh

theorem ofPrelude_eq_ok_iff :
    ofPrelude prelude = .ok graph ↔ (∀ tree ∈ prelude.toList, tree.Distinct) ∧ graph = ofTrees [] prelude := by
  cases prelude with
  | none => simp [ofPrelude, ofTrees, @eq_comm _ graph]
  | some tree =>
    simp only [ofPrelude, bind_eq_ok_iff, GraphModule.ofModule_eq_ok_iff, pure_eq_ok_iff,
      Option.toList_some, forall_mem_singleton]
    constructor
    · rintro ⟨_, ⟨hdistinct, rfl⟩, rfl⟩
      exact ⟨hdistinct, rfl⟩
    · rintro ⟨hdistinct, rfl⟩
      exact ⟨_, ⟨hdistinct, rfl⟩, rfl⟩

theorem checkUse_eq_ok_iff {use : Item} :
    graph.checkUse module_ use = .ok u ↔ use.name ≠ module_.name ∧ use.name ∈ graph.modules.map (·.name) := by
  rw [← contains_iff, checkUse]
  by_cases hself : use.name = module_.name
  · simp [hself]
  · cases hcontains : graph.contains use.name <;> simp [hself]

/-- A check of every element of a list succeeds exactly if it does on each. -/
theorem forM_eq_ok_iff {α ε : Type} {step : α → Except ε Unit} {as : List α} :
    as.forM step = .ok u ↔ ∀ a ∈ as, step a = .ok () := by
  induction as with
  | nil => simp [List.forM]
  | cons a as ih =>
    rw [List.forM, bind_eq_ok_iff, forall_mem_cons]
    constructor
    · rintro ⟨_, hfirst, hothers⟩
      exact ⟨hfirst, ih.1 hothers⟩
    · rintro ⟨hfirst, hothers⟩
      exact ⟨(), hfirst, ih.2 hothers⟩

/-- The uses are right exactly if each names another module of the program. -/
theorem forM_checkUses_eq_ok_iff :
    (ofTrees trees prelude).modules.forM (ofTrees trees prelude).checkUses = .ok u ↔
      ∀ tree ∈ prelude.toList ++ trees, ∀ use ∈ tree.items, use.isUse = true →
        use.name ≠ tree.knownName ∧ use.name ∈ (prelude.toList ++ trees).map Module.knownName := by
  simp only [forM_eq_ok_iff, checkUses, checkUse_eq_ok_iff, map_name_ofTrees, mem_filter, and_imp]
  simp only [ofTrees, GraphModule.ofTree, mem_append, mem_map]
  constructor
  · intro h tree htree
    rcases htree with hprelude | hinput
    · exact h _ (.inl ⟨tree, hprelude, rfl⟩)
    · exact h _ (.inr ⟨tree, hinput, rfl⟩)
  · rintro h _ (⟨tree, hprelude, rfl⟩ | ⟨tree, hinput, rfl⟩)
    · exact h tree (.inl hprelude)
    · exact h tree (.inr hinput)

/-- What it takes to assemble a program. -/
theorem build_eq_ok_iff :
    build trees prelude = .ok graph ↔ Assembles trees prelude ∧ graph = ofTrees trees prelude := by
  have hnames : ((prelude.toList ++ trees).map Module.knownName).Nodup ↔
      FreshNames ((ofTrees [] prelude).modules.map (·.name)) (trees.map Module.knownName) := by
    rw [map_name_ofTrees, append_nil, map_append, nodup_append, FreshNames]
    cases prelude <;> simp [eq_comm]
  have hmodules : ofTrees trees prelude = { ofTrees [] prelude with
      modules := (ofTrees [] prelude).modules ++ trees.map (GraphModule.ofTree false) } := by
    simp [ofTrees]
  simp only [build, bind_eq_ok_iff, ofPrelude_eq_ok_iff, foldlM_addModule_eq_ok_iff, pure_eq_ok_iff]
  constructor
  · rintro ⟨_, ⟨hprelude, rfl⟩, _, ⟨htrees, hfresh, rfl⟩, _, huses, rfl⟩
    rw [← hmodules] at huses ⊢
    exact ⟨⟨forall_mem_append.2 ⟨hprelude, htrees⟩, hnames.2 hfresh, forM_checkUses_eq_ok_iff.1 huses⟩, rfl⟩
  · rintro ⟨h, rfl⟩
    obtain ⟨hprelude, htrees⟩ := forall_mem_append.1 h.distinct
    exact ⟨_, ⟨hprelude, rfl⟩, _, ⟨htrees, hnames.1 h.names, rfl⟩, (),
      hmodules ▸ forM_checkUses_eq_ok_iff.2 h.uses, hmodules.symm⟩

/-- A graph that is built has well-formed modules, and each comes from a tree that was given. -/
theorem build_spec (h : build trees prelude = .ok graph) :
    graph.WellFormed ∧ ∀ module_ ∈ graph.modules, module_.tree ∈ prelude ∨ module_.tree ∈ trees := by
  obtain ⟨hassembles, rfl⟩ := build_eq_ok_iff.1 h
  refine ⟨⟨fun module_ hmodule => ?_, map_name_ofTrees trees prelude ▸ hassembles.names⟩, fun module_ hmodule => ?_⟩
  · have hdistinct := hassembles.distinct module_.tree (of_mem_ofTrees hmodule).2
    rcases mem_append.1 hmodule with hfirst | hlater
    · obtain ⟨tree, _, rfl⟩ := mem_map.1 hfirst
      exact hdistinct.collects true
    · obtain ⟨tree, _, rfl⟩ := mem_map.1 hlater
      exact hdistinct.collects false
  · exact (mem_append.1 (of_mem_ofTrees hmodule).2).imp_left Option.mem_toList.1

/-- Files are assembled exactly if no file repeats a use, declares a name twice or declares the name of a primitive
    type, the files are known under different names, and every use names another one of them. The program then has
    the prelude before the other files in their order, each with what it declares under its name and with what it
    uses in its order. -/
theorem exists_build_iff (trees : List Module) (prelude : Option Module) :
    ((∃ graph, build trees prelude = .ok graph) ↔
      (∀ tree ∈ prelude.toList ++ trees, ((tree.items.filter Item.isUse).map Item.name).Nodup ∧
        ((tree.items.filter fun item => !item.isUse).map Item.name).Nodup ∧
        ∀ item ∈ tree.items, item.isUse = false → item.name ∉ ["int", "float", "bool", "string"]) ∧
      ((prelude.toList ++ trees).map Module.knownName).Nodup ∧
      ∀ tree ∈ prelude.toList ++ trees, ∀ use ∈ tree.items, use.isUse = true →
        ∃ used ∈ prelude.toList ++ trees, used.knownName = use.name ∧ used.knownName ≠ tree.knownName) ∧
    ∀ graph, build trees prelude = .ok graph →
      graph.prelude = prelude.map Module.knownName ∧ graph.modules.map (·.tree) = prelude.toList ++ trees ∧
      graph.modules.map (·.isPrelude) = prelude.toList.map (fun _ => true) ++ trees.map (fun _ => false) ∧
      ∀ module_ ∈ graph.modules, module_.name = module_.tree.knownName ∧
        module_.items = (module_.tree.items.filter fun item => !item.isUse) ∧
        (∀ name item, module_.item? name = some item ↔
          item ∈ module_.tree.items ∧ item.isUse = false ∧ item.name = name) ∧
        module_.imports = (module_.tree.items.filter Item.isUse).map Item.name := by
  constructor
  · simp only [build_eq_ok_iff, exists_and_left, exists_eq, and_true]
    constructor
    · intro h
      refine ⟨fun tree htree => ?_, h.names, fun tree htree use huse hisUse => ?_⟩
      · have hdistinct := h.distinct tree htree
        exact ⟨hdistinct.uses, hdistinct.items, fun item hitem huse =>
          hdistinct.primitive item (mem_filter.2 ⟨hitem, by simp [huse]⟩)⟩
      · obtain ⟨hother, hname⟩ := h.uses tree htree use huse hisUse
        obtain ⟨used, hused, hknown⟩ := mem_map.1 hname
        exact ⟨used, hused, hknown, hknown ▸ hother⟩
    · rintro ⟨hdistinct, hnames, huses⟩
      refine ⟨fun tree htree => ?_, hnames, fun tree htree use huse hisUse => ?_⟩
      · obtain ⟨hrepeated, hdeclared, hprimitive⟩ := hdistinct tree htree
        refine ⟨hdeclared, hrepeated, fun item hitem => ?_⟩
        obtain ⟨hitem, huse⟩ := mem_filter.1 hitem
        exact hprimitive item hitem (by simpa using huse)
      · obtain ⟨used, hused, hknown, hother⟩ := huses tree htree use huse hisUse
        exact ⟨hknown ▸ hother, hknown ▸ mem_map_of_mem hused⟩
  · intro graph h
    have hcollects := (build_spec h).1.modules
    obtain ⟨_, rfl⟩ := build_eq_ok_iff.1 h
    refine ⟨rfl, map_tree_ofTrees trees prelude, ?_, fun module_ hmodule => ?_⟩
    · simp [ofTrees, GraphModule.ofTree, Function.comp_def]
    · have hmodule := hcollects module_ hmodule
      exact ⟨hmodule.name, hmodule.items, fun _ _ => hmodule.item?_eq_some_iff, hmodule.imports⟩

end Graph

end Smpl
