import Smpl.Proofs.Spelling.Registry

namespace Smpl

open List

namespace TypedModule

variable {full : Bool} {module_ : TypedModule}

theorem knownName_erase_spelled (full : Bool) (module_ : TypedModule) :
    (module_.spelled full).erase.knownName = module_.erase.knownName := rfl

/-- Spelling keeps the items and their order. -/
theorem declarations_spelled (full : Bool) (module_ : TypedModule) :
    (module_.spelled full).erase.items.filter (fun item => !item.isUse) =
      (module_.items.filter fun item => !item.isUse).map fun item => (item.spelled full).erase := by
  have hkeep : ∀ item : TypedItem, (!item.isUse && (!full || !item.isUse)) = !item.isUse := by
    intro item
    cases item.isUse <;> simp
  simp [erase, spelled, filter_map, Function.comp_def, hkeep]

theorem use_mem_spelled {use : Item} (h : use ∈ (module_.spelled full).erase.items) (huse : use.isUse = true) :
    full = false ∧ use ∈ module_.erase.items := by
  cases full with
  | false =>
    rw [spelled_false] at h
    exact ⟨rfl, h⟩
  | true =>
    obtain ⟨_, hspelled, rfl⟩ := mem_map.1 h
    obtain ⟨item, hitem, rfl⟩ := mem_map.1 hspelled
    have hkept := (mem_filter.1 hitem).2
    rw [TypedItem.isUse_erase, TypedItem.isUse_spelled] at huse
    simp [huse] at hkept

theorem distinct_spelled (h : module_.erase.Distinct) (full : Bool) : (module_.spelled full).erase.Distinct := by
  cases full with
  | false => rwa [spelled_false]
  | true =>
    have hnames : ((module_.spelled true).erase.items.filter fun item => !item.isUse).map Item.name =
        (module_.erase.items.filter fun item => !item.isUse).map Item.name := by
      rw [declarations_spelled, map_map, erase, filter_map, map_map]
      simp [Function.comp_def]
    have huses : (module_.spelled true).erase.items.filter Item.isUse = [] := by
      refine filter_eq_nil_iff.2 fun use hmem huse => ?_
      cases (use_mem_spelled hmem huse).1
    refine ⟨?_, ?_, ?_⟩
    · rw [Collected.ofItems, hnames]
      exact h.items
    · rw [Collected.ofItems, huses]
      exact .nil
    · intro item hitem
      have hname : item.name ∈ (module_.erase.items.filter fun item => !item.isUse).map Item.name :=
        hnames ▸ mem_map_of_mem hitem
      obtain ⟨other, hother, heq⟩ := mem_map.1 hname
      exact heq ▸ h.primitive other hother

end TypedModule

theorem Graph.declarations_eq_flatMap (graph : Graph) :
    graph.declarations = graph.modules.flatMap fun module_ =>
      (module_.tree.items.filter fun item => !item.isUse).map (module_.name, ·) := by
  simp [declarations, items, filter_flatMap, filter_map, Function.comp_def]

namespace Registry

/-- A module of a program and what becomes of it when it is checked and its paths are spelled. -/
def RespellsModule (registry : Registry) (full : String → Bool) (module_ module' : GraphModule) : Prop :=
  ∃ out, registry.checkModule module_ = .ok out ∧
    module' = GraphModule.ofTree out.isPrelude (out.spelled (full out.name)).erase

namespace RespellsModule

variable {registry : Registry} {full : String → Bool} {module_ module' : GraphModule}
  (h : registry.RespellsModule full module_ module')
include h

theorem isPrelude : module'.isPrelude = module_.isPrelude := by
  obtain ⟨out, hout, rfl⟩ := h
  obtain ⟨items, _, rfl⟩ := checkModule_eq_ok_iff.1 hout
  rfl

theorem name (hcollects : module_.Collects) : module'.name = module_.name := by
  obtain ⟨out, hout, rfl⟩ := h
  rw [GraphModule.ofTree, TypedModule.knownName_erase_spelled, erase_of_checkModule hout]
  exact hcollects.name.symm

/-- A module whose paths are not to be spelled is left alone. -/
theorem tree (hkept : full module_.name = false) : module'.tree = module_.tree := by
  obtain ⟨out, hout, rfl⟩ := h
  have hname : out.name = module_.name := by
    obtain ⟨items, _, rfl⟩ := checkModule_eq_ok_iff.1 hout
    rfl
  rw [GraphModule.ofTree, hname, hkept, TypedModule.spelled_false, erase_of_checkModule hout]

theorem declarations : Forall₂ (fun item item' => registry.Respells full (module_.name, item)
    (module_.name, item'))
    (module_.tree.items.filter fun item => !item.isUse) (module'.tree.items.filter fun item => !item.isUse) := by
  obtain ⟨out, hout, rfl⟩ := h
  obtain ⟨items, hitems, rfl⟩ := checkModule_eq_ok_iff.1 hout
  rw [GraphModule.ofTree, TypedModule.declarations_spelled, forall₂_map_right_iff]
  have hkinds : ∀ {item : Item} {out : TypedItem}, registry.checkItem module_.name item = .ok out →
      ((!item.isUse) = true ↔ (!out.isUse) = true) := by
    intro item out hout
    rw [← (checkItem_eq_ok_iff.1 hout).erase, TypedItem.isUse_erase]
  have hfiltered := rel_filter (R := fun item out => registry.checkItem module_.name item = .ok out)
    (fun _ _ => hkinds) (mapM_eq_ok_iff.1 hitems)
  refine hfiltered.imp fun item out hout => ?_
  exact ⟨out, checkItem_eq_ok_iff.1 hout, rfl⟩

end RespellsModule

variable {registry : Registry} {full : String → Bool} {graph' : Graph}

theorem hasEntry_of_respellsModule {module_ module' : GraphModule} (h : registry.RespellsModule full module_ module')
    (hcollects : module_.Collects) {owner : String} :
    (module_.isPrelude = false ∧ module_.name = owner ∧ ∃ loc header body,
      Item.function loc header body ∈ module_.tree.items ∧ header.name = entryName) ↔
    (module'.isPrelude = false ∧ module'.name = owner ∧ ∃ loc header body,
      Item.function loc header body ∈ module'.tree.items ∧ header.name = entryName) := by
  rw [h.isPrelude, h.name hcollects]
  refine and_congr_right fun _ => and_congr_right fun _ => ⟨?_, ?_⟩
  · rintro ⟨loc, header, body, hitem, hname⟩
    obtain ⟨item', hitem', out, hchecks, heq⟩ := exists_of_forall₂_of_mem h.declarations (mem_filter.2 ⟨hitem, rfl⟩)
    cases hchecks with
    | function hchecked =>
      cases heq
      exact ⟨_, _, _, (mem_filter.1 hitem').1, (Graph.names_of_checkHeader hchecked).1.trans hname⟩
  · rintro ⟨loc, header, body, hitem, hname⟩
    obtain ⟨item, hitem', out, hchecks, heq⟩ :=
      exists_of_forall₂_of_mem_right h.declarations (mem_filter.2 ⟨hitem, rfl⟩)
    have herase : (out.spelled (full module_.name)).erase = .function loc header body := (Prod.mk.inj heq).2.symm
    cases hchecks with
    | function hchecked =>
      cases herase
      exact ⟨_, _, _, (mem_filter.1 hitem').1, (Graph.names_of_checkHeader hchecked).1.symm.trans hname⟩
    | use | struct | eclipsed | opaqueType | builtin | other => cases herase

/-- The modules of a program with their paths spelled make a program of the same declarations. -/
theorem rewritten_of_respellsModule (hwell : registry.graph.WellFormed) (hwell' : graph'.WellFormed)
    (hprelude : graph'.prelude = registry.graph.prelude)
    (hmodules : Forall₂ (registry.RespellsModule full) registry.graph.modules graph'.modules) :
    registry.Rewritten full graph' where
  well := hwell
  well' := hwell'
  prelude := hprelude
  names := by
    rw [eq_comm, ← forall₂_eq_eq_eq, forall₂_map_left_iff, forall₂_map_right_iff]
    exact forall₂_imp_of_mem (fun module_ hmodule _ hrespells => (hrespells.name (hwell.modules module_ hmodule)).symm)
      hmodules
  declarations := by
    rw [Graph.declarations_eq_flatMap, Graph.declarations_eq_flatMap]
    have hcollected : Forall₂ (fun module_ module' => module_.Collects ∧
      registry.RespellsModule full module_ module')
        registry.graph.modules graph'.modules :=
      forall₂_imp_of_mem (fun module_ hmodule _ hrespells => ⟨hwell.modules module_ hmodule, hrespells⟩) hmodules
    refine rel_flatMap hcollected fun module_ module' hrespells => ?_
    rw [hrespells.2.name hrespells.1, forall₂_map_left_iff, forall₂_map_right_iff]
    exact hrespells.2.declarations
  uses := by
    intro viewer owner hkept
    constructor
    · rintro ⟨module', hmodule', hname, loc, huse⟩
      obtain ⟨module_, hmodule, hrespells⟩ :=
        exists_of_forall₂_of_mem_right hmodules hmodule'
      rw [RespellsModule.name hrespells (hwell.modules module_ hmodule)] at hname
      rw [RespellsModule.tree hrespells (hname ▸ hkept)] at huse
      exact ⟨module_, hmodule, hname, loc, huse⟩
    · rintro ⟨module_, hmodule, hname, loc, huse⟩
      obtain ⟨module', hmodule', hrespells⟩ := exists_of_forall₂_of_mem hmodules hmodule
      rw [← hrespells.tree (hname ▸ hkept)] at huse
      exact ⟨module', hmodule', (hrespells.name (hwell.modules module_ hmodule)).trans hname, loc, huse⟩
  entries := by
    intro owner
    constructor
    · rintro ⟨header, module', hmodule', hinput, hname, loc, body, hitem, hentry⟩
      obtain ⟨module_, hmodule, hrespells⟩ :=
        exists_of_forall₂_of_mem_right hmodules hmodule'
      obtain ⟨hinput, hname, loc, header, body, hitem, hentry⟩ :=
        (hasEntry_of_respellsModule hrespells (hwell.modules module_ hmodule)).2
          ⟨hinput, hname, loc, header, body, hitem, hentry⟩
      exact ⟨header, module_, hmodule, hinput, hname, loc, body, hitem, hentry⟩
    · rintro ⟨header, module_, hmodule, hinput, hname, loc, body, hitem, hentry⟩
      obtain ⟨module', hmodule', hrespells⟩ := exists_of_forall₂_of_mem hmodules hmodule
      obtain ⟨hinput, hname, loc, header, body, hitem, hentry⟩ :=
        (hasEntry_of_respellsModule hrespells (hwell.modules module_ hmodule)).1
          ⟨hinput, hname, loc, header, body, hitem, hentry⟩
      exact ⟨header, module', hmodule', hinput, hname, loc, body, hitem, hentry⟩

end Registry

namespace Program

/-- The modules of the input as they were read. -/
def trees (program : Program) : List Module :=
  program.userModules.map TypedModule.erase

/-- The prelude as it was read. -/
def preludeTree (program : Program) : Option Module :=
  (program.modules.find? (·.isPrelude)).map TypedModule.erase

/-- The program with paths spelled in full in some of its modules, which use no others then. -/
def spelled (full : String → Bool) (program : Program) : Program :=
  { program with modules := program.modules.map fun module_ => module_.spelled (full module_.name) }

theorem userModules_spelled (full : String → Bool) (program : Program) :
    (program.spelled full).userModules = program.userModules.map fun module_ =>
      module_.spelled (full module_.name) := by
  rw [userModules, userModules, spelled, filter_map]
  rfl

/-- The modules of a program are the prelude, if there is one, and then those of the input. -/
structure Reads (program : Program) (trees : List Module) (prelude : Option Module) (first : Option TypedModule)
    (others : List TypedModule) : Prop where
  modules : program.modules = first.toList ++ others
  isPrelude : ∀ module_ ∈ first, module_.isPrelude = true
  isInput : ∀ module_ ∈ others, module_.isPrelude = false
  prelude : first.map TypedModule.erase = prelude
  trees : others.map TypedModule.erase = trees
  names : ∀ module_ ∈ program.modules, module_.name = module_.erase.knownName

theorem exists_reads {program : Program} {trees : List Module} {prelude : Option Module}
    (hgraph : program.graph = Graph.ofTrees trees prelude) (h : program.registry.checkModules = .ok program.modules) :
    ∃ first others, program.Reads trees prelude first others := by
  have hmodules : program.modules.map (fun module_ => (module_.isPrelude, module_.erase)) =
      prelude.toList.map (Prod.mk true) ++ trees.map (Prod.mk false) := by
    have hsources : program.graph.modules.map (fun module_ => (module_.isPrelude, module_.tree)) =
        prelude.toList.map (Prod.mk true) ++ trees.map (Prod.mk false) := by
      simp [hgraph, Graph.ofTrees, GraphModule.ofTree, Function.comp_def]
    rw [← hsources, eq_comm, ← forall₂_eq_eq_eq, forall₂_map_left_iff, forall₂_map_right_iff]
    refine (mapM_eq_ok_iff.1 h).imp fun module_ out hout => ?_
    have herase := Registry.erase_of_checkModule hout
    obtain ⟨_, _, rfl⟩ := Registry.checkModule_eq_ok_iff.1 hout
    rw [herase]
  have hnames : ∀ module_ ∈ program.modules, module_.name = module_.erase.knownName := by
    intro out hout
    obtain ⟨module_, hmodule, hchecked⟩ := (mem_of_mapM_eq_ok h).1 hout
    obtain ⟨hname, _⟩ := Graph.of_mem_ofTrees (hgraph ▸ hmodule : module_ ∈ (Graph.ofTrees trees prelude).modules)
    rw [Registry.erase_of_checkModule hchecked, ← hname]
    obtain ⟨_, _, rfl⟩ := Registry.checkModule_eq_ok_iff.1 hchecked
    rfl
  obtain ⟨firsts, others, heq, hfirsts, hothers⟩ := map_eq_append_iff.1 hmodules
  have hinput : ∀ module_ ∈ others, module_.isPrelude = false := by
    intro module_ hmodule
    have hmem := mem_map_of_mem (f := fun module_ => (module_.isPrelude, module_.erase)) hmodule
    rw [hothers] at hmem
    obtain ⟨_, _, hpair⟩ := mem_map.1 hmem
    exact (Prod.mk.inj hpair).1.symm
  have htrees : others.map TypedModule.erase = trees := by
    have hsnd := congrArg (List.map Prod.snd) hothers
    simpa [Function.comp_def] using hsnd
  cases prelude with
  | none =>
    obtain rfl : firsts = [] := map_eq_nil_iff.1 hfirsts
    have hnone : ∀ module_ ∈ (none : Option TypedModule), module_.isPrelude = true := by
      intro module_ hmem
      cases hmem
    exact ⟨none, others, heq, hnone, hinput, rfl, htrees, hnames⟩
  | some tree =>
    obtain ⟨first, rfl, hpair⟩ := map_eq_singleton_iff.1 hfirsts
    obtain ⟨hfirst, rfl⟩ := Prod.mk.inj hpair
    exact ⟨some first, others, heq, fun module_ hmem => Option.mem_some_iff.1 hmem ▸ hfirst, hinput, rfl,
      htrees, hnames⟩

namespace Reads

variable {program : Program} {trees : List Module} {prelude : Option Module} {first : Option TypedModule}
  {others : List TypedModule} (h : program.Reads trees prelude first others)
include h

theorem userModules_eq : program.userModules = others := by
  have hfirst : first.toList.filter (fun module_ => !module_.isPrelude) = [] :=
    filter_eq_nil_iff.2 fun module_ hmem => by simp [h.isPrelude module_ (Option.mem_toList.1 hmem)]
  have hothers : others.filter (fun module_ => !module_.isPrelude) = others :=
    filter_eq_self.2 fun module_ hmem => by simp [h.isInput module_ hmem]
  rw [Program.userModules, h.modules, filter_append, hfirst, hothers, nil_append]

theorem trees_eq : program.trees = trees := by
  rw [Program.trees, h.userModules_eq, h.trees]

theorem preludeTree_eq : program.preludeTree = prelude := by
  rw [Program.preludeTree, h.modules, ← h.prelude]
  cases hfirst : first with
  | none =>
    have hnone : others.find? (·.isPrelude) = none :=
      find?_eq_none.2 fun module_ hmem => by simp [h.isInput module_ hmem]
    rw [Option.toList_none, nil_append, hnone]
  | some module_ =>
    rw [Option.toList_some, singleton_append, find?_cons_of_pos (h.isPrelude module_ hfirst)]

theorem append_eq : prelude.toList ++ trees = program.modules.map TypedModule.erase := by
  rw [h.modules, map_append, h.trees, ← h.prelude]
  cases first <;> rfl

/-- Spelling the paths of a program keeps which of its modules is the prelude. -/
theorem spelled (full : String → Bool) :
    (program.spelled full).Reads (program.spelled full).trees (program.spelled full).preludeTree
      (first.map fun module_ => module_.spelled (full module_.name))
      (others.map fun module_ => module_.spelled (full module_.name)) := by
  have hmodules : (program.spelled full).modules =
    (first.map fun module_ => module_.spelled (full module_.name)).toList ++
      others.map fun module_ => module_.spelled (full module_.name) := by
    rw [Program.spelled, h.modules, map_append]
    cases first <;> rfl
  have hfirst : ∀ module_ ∈ first.map fun module_ => module_.spelled (full module_.name), module_.isPrelude = true := by
    intro module_ hmem
    obtain ⟨source, hsource, rfl⟩ := Option.map_eq_some_iff.1 hmem
    exact h.isPrelude source hsource
  have hothers : ∀ module_ ∈ others.map fun module_ => module_.spelled (full module_.name),
      module_.isPrelude = false := by
    intro module_ hmem
    obtain ⟨source, hsource, rfl⟩ := mem_map.1 hmem
    exact h.isInput source hsource
  have hnames : ∀ module_ ∈ (program.spelled full).modules, module_.name = module_.erase.knownName := by
    intro module_ hmem
    obtain ⟨source, hsource, rfl⟩ := mem_map.1 hmem
    exact h.names source hsource
  have hreads : (program.spelled full).Reads _ _ _ _ := ⟨hmodules, hfirst, hothers, rfl, rfl, hnames⟩
  rw [hreads.trees_eq, hreads.preludeTree_eq]
  exact hreads

theorem modules_ofTrees : (Graph.ofTrees trees prelude).modules =
    program.modules.map fun module_ => GraphModule.ofTree module_.isPrelude module_.erase := by
  have hfirst : ∀ module_ ∈ first.toList, GraphModule.ofTree module_.isPrelude module_.erase =
      GraphModule.ofTree true module_.erase :=
        fun module_ hmem => by rw [h.isPrelude module_ (Option.mem_toList.1 hmem)]
  have hothers : ∀ module_ ∈ others, GraphModule.ofTree module_.isPrelude module_.erase =
      GraphModule.ofTree false module_.erase := fun module_ hmem => by rw [h.isInput module_ hmem]
  rw [Graph.ofTrees, h.modules, map_append, map_congr_left hfirst, map_congr_left hothers, ← h.prelude,
    ← h.trees, map_map]
  cases first <;> rfl

/-- The modules of a program can be assembled after their paths are spelled. -/
theorem assembles (hassembles : Graph.Assembles trees prelude) (full : String → Bool) :
    Graph.Assembles (program.spelled full).trees (program.spelled full).preludeTree := by
  have hspelled := (h.spelled full).append_eq
  rw [Program.spelled, map_map] at hspelled
  have hnames : ((program.spelled full).preludeTree.toList ++ (program.spelled full).trees).map Module.knownName =
      (prelude.toList ++ trees).map Module.knownName := by
    rw [Program.spelled, hspelled, h.append_eq, map_map, map_map]
    rfl
  refine ⟨fun tree htree => ?_, hnames ▸ hassembles.names, fun tree htree use hmem huse => ?_⟩
  · obtain ⟨module_, hmodule, rfl⟩ := mem_map.1 (hspelled ▸ htree)
    refine TypedModule.distinct_spelled (hassembles.distinct _ ?_) _
    exact h.append_eq ▸ mem_map_of_mem hmodule
  · obtain ⟨module_, hmodule, rfl⟩ := mem_map.1 (hspelled ▸ htree)
    rw [hnames]
    exact hassembles.uses module_.erase (h.append_eq ▸ mem_map_of_mem hmodule) use
      (TypedModule.use_mem_spelled hmem huse).2 huse

/-- A module that is used is one of the input or the prelude. -/
theorem exists_used (hassembles : Graph.Assembles trees prelude) {module_ : TypedModule}
    (hmodule : module_ ∈ program.modules)
    {loc : Location} {name : String} (huse : TypedItem.use loc name ∈ module_.items) :
    prelude.map Module.knownName = some name ∨ ∃ used ∈ program.userModules, used.name = name := by
  have hmem := (hassembles.uses module_.erase (h.append_eq ▸ mem_map_of_mem hmodule) (.use loc name)
    (mem_map_of_mem huse) rfl).2
  rw [h.append_eq, map_map] at hmem
  obtain ⟨used, hused, hname⟩ := mem_map.1 hmem
  have hname : used.name = name := (h.names used hused).trans hname
  rw [h.modules] at hused
  rcases mem_append.1 hused with hfirst | hother
  · rw [Option.mem_toList] at hfirst
    left
    rw [← h.prelude, hfirst, ← hname, h.names used (h.modules ▸ hused)]
    rfl
  · exact .inr ⟨used, h.userModules_eq ▸ hother, hname⟩

end Reads

variable {program : Program} {trees : List Module} {prelude : Option Module}

/-- The graph of a program after paths are spelled in full in some of its modules. -/
def spelledGraph (full : String → Bool) (program : Program) : Graph :=
  Graph.ofTrees (program.spelled full).trees (program.spelled full).preludeTree

theorem Reads.rewritten {first : Option TypedModule} {others : List TypedModule}
    (h : program.Reads trees prelude first others) (hassembles : Graph.Assembles trees prelude)
    (hgraph : program.graph = Graph.ofTrees trees prelude)
    (hmodules : program.registry.checkModules = .ok program.modules) (full : String → Bool) :
    program.registry.Rewritten full (program.spelledGraph full) := by
  have hwell : program.graph.WellFormed := by
    rw [hgraph]
    exact (Graph.build_spec (Graph.build_eq_ok_iff.2 ⟨hassembles, rfl⟩)).1
  have hwell' := (Graph.build_spec (Graph.build_eq_ok_iff.2 ⟨h.assembles hassembles full, rfl⟩)).1
  have hprelude : (program.spelledGraph full).prelude = program.graph.prelude := by
    rw [hgraph, Graph.ofTrees, ← h.prelude, spelledGraph, Graph.ofTrees, ← (h.spelled full).prelude]
    cases first <;> rfl
  refine Registry.rewritten_of_respellsModule hwell hwell' hprelude ?_
  rw [spelledGraph, (h.spelled full).modules_ofTrees, Program.spelled, map_map, forall₂_map_right_iff]
  exact (mapM_eq_ok_iff.1 hmodules).imp fun _ out hout => ⟨out, hout, rfl⟩

/-- A checked program has its prelude and then its input as modules. -/
theorem reads_of_ofModules (h : Program.ofModules trees prelude = .ok program) :
    Graph.Assembles trees prelude ∧ program.graph = Graph.ofTrees trees prelude ∧
      ∃ first others, program.Reads trees prelude first others := by
  obtain ⟨hassembles, hcheck⟩ := Program.ofModules_eq_ok_iff.1 h
  obtain ⟨types, structs, signatures, _, _, _, _, hregistry, hmodules⟩ := Graph.check_eq_ok_iff.1 hcheck
  have hgraph : program.graph = Graph.ofTrees trees prelude := by rw [Program.graph, hregistry]
  exact ⟨hassembles, hgraph, exists_reads hgraph hmodules⟩

/-- A checked program is checked in the same way after paths are spelled in full in some of its modules
    and their uses are gone. -/
theorem exists_ofModules_spelled (h : Program.ofModules trees prelude = .ok program) (full : String → Bool) :
    program.trees = trees ∧ program.preludeTree = prelude ∧
      ∃ program', Program.ofModules (program.spelled full).trees (program.spelled full).preludeTree = .ok program' ∧
        program'.modules = (program.spelled full).modules ∧ program'.entry = program.entry ∧
        program'.registry.structs = program.registry.structs ∧
        program'.registry.functions = program.registry.functions ∧
        program'.registry.types.opaques = program.registry.types.opaques ∧
        program'.graph.prelude = program.graph.prelude := by
  obtain ⟨hassembles, hgraph, first, others, hreads⟩ := reads_of_ofModules h
  obtain ⟨types, structs, signatures, htypes, hstructs, hsignatures, hentry, hregistry, hmodules⟩ :=
    Graph.check_eq_ok_iff.1 (Program.ofModules_eq_ok_iff.1 h).2
  have htables : program.registry.Tabulates signatures := by
    rw [hregistry]
    exact ⟨htypes, hstructs, hsignatures, rfl⟩
  have hrewritten := hreads.rewritten hassembles hgraph hmodules full
  obtain ⟨types', htypes', hstructs', hopaques⟩ := hrewritten.exists_declaredTypes htables
  have hretyped : program.registry.Retyped signatures full _ types' := ⟨hrewritten, htables, hstructs', hopaques⟩
  -- The structs and functions come out as they were, so only the graph and the written fields differ.
  have hmodules' : (Registry.mk (program.spelledGraph full) types' program.registry.structs
      program.registry.functions).checkModules = .ok (program.spelled full).modules := by
    rw [Registry.checkModules, spelledGraph, (hreads.spelled full).modules_ofTrees, Program.spelled, map_map]
    exact mapM_map_of_mapM (fun module_ hmodule _ hchecked => hretyped.checkModule hmodule hchecked) hmodules
  have hentry' := hretyped.entryModule (hgraph ▸ hentry)
  have hcheck' : (program.spelledGraph full).check.outcome = .ok ⟨⟨program.spelledGraph full, types',
      program.registry.structs, program.registry.functions⟩, (program.spelled full).modules, program.entry⟩ :=
    Graph.check_eq_ok_iff.2 ⟨types', program.registry.structs, signatures, htypes', hretyped.structs_eq,
      hretyped.signatures_eq, hentry', congrArg (Registry.mk _ _ _) htables.functions, hmodules'⟩
  exact ⟨hreads.trees_eq, hreads.preludeTree_eq, _,
    Program.ofModules_eq_ok_iff.2 ⟨hreads.assembles hassembles full, hcheck'⟩,
    rfl, rfl, rfl, rfl, hopaques, hrewritten.prelude⟩

end Program

end Smpl
