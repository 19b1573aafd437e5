import Smpl.Proofs.Compile.Failure
import Smpl.Proofs.Extend.Rust

namespace Smpl

open List

/-- Two tables agree on a name if the second has all that the first has and no more. -/
theorem Table.get_eq_of_mono {α : Type} {table table' : Table α} {name : ItemName}
    (hmono : ∀ {value}, table.get name = .ok value → table'.get name = .ok value)
    (hback : ∀ {value'}, table'.get name = .ok value' → ∃ value, table.get name = .ok value) :
    table'.get name = table.get name := by
  cases hfind : table.find? name.text with
  | some value =>
    have hget := Table.get_eq_ok_iff.2 hfind
    rw [hget, hmono hget]
  | none =>
    cases hfind' : table'.find? name.text with
    | some value' =>
      obtain ⟨value, hget⟩ := hback (Table.get_eq_ok_iff.2 hfind')
      rw [Table.get_eq_ok_iff, hfind] at hget
      cases hget
    | none => rw [Table.get, Table.get, Table.require, Table.require, hfind, hfind']

namespace Graph

section

variable {before after : List Module} {new : Module} {prelude : Option Module}

theorem mem_modules_insert_iff {module_ : GraphModule} :
    module_ ∈ (ofTrees (before ++ new :: after) prelude).modules ↔
      module_ = GraphModule.ofTree false new ∨ module_ ∈ (ofTrees (before ++ after) prelude).modules := by
  simp only [ofTrees, map_append, map_cons, mem_append, mem_cons]
  tauto

/-- One more module keeps all the others. -/
theorem within_insert : (ofTrees (before ++ after) prelude).Within (ofTrees (before ++ new :: after) prelude) where
  prelude := rfl
  modules := fun module_ hmodule => ⟨module_, mem_modules_insert_iff.2 (.inr hmodule), rfl, fun _ => Iff.rfl⟩

/-- A module without an entry point changes nothing about those of the others. -/
theorem hasEntry_insert_iff (hmain : ∀ loc header body, Item.function loc header body ∈ new.items →
    header.name ≠ entryName)
    {owner : String} {header : Header TypeExpr} :
    (ofTrees (before ++ new :: after) prelude).HasEntry owner header ↔
      (ofTrees (before ++ after) prelude).HasEntry owner header := by
  constructor
  · rintro ⟨module_, hmodule, hprelude, hname, loc, body, hitem, hentry⟩
    rcases mem_modules_insert_iff.1 hmodule with rfl | hold
    · exact absurd hentry (hmain loc header body hitem)
    · exact ⟨module_, hold, hprelude, hname, loc, body, hitem, hentry⟩
  · rintro ⟨module_, hmodule, hrest⟩
    exact ⟨module_, mem_modules_insert_iff.2 (.inr hmodule), hrest⟩

namespace Assembles

variable (h : Assembles (before ++ after) prelude) (hread : new.ReadFrom new.file)
  (hname : new.knownName ∉ (prelude.toList ++ (before ++ after)).map Module.knownName)
include h hread

/-- Only the uses of the new module can go wrong. -/
theorem failsIn_checkUses_insert {module_ : GraphModule}
    (hmodule : module_ ∈ (ofTrees (before ++ new :: after) prelude).modules) :
    FailsIn new.file ((ofTrees (before ++ new :: after) prelude).checkUses module_) := by
  rcases mem_modules_insert_iff.1 hmodule with rfl | hold
  · exact failsIn_checkUses hread
  · have huses := forM_eq_ok_iff.1 ((forM_checkUses_eq_ok_iff (u := ())).2 h.uses) module_ hold
    refine .of_eq_ok ((forM_eq_ok_iff (u := ())).2 fun use huse => ?_)
    obtain ⟨hother, hknown⟩ := checkUse_eq_ok_iff.1 (forM_eq_ok_iff.1 huses use huse)
    refine checkUse_eq_ok_iff.2 ⟨hother, ?_⟩
    obtain ⟨used, hused, hname⟩ := mem_map.1 hknown
    exact mem_map.2 ⟨used, mem_modules_insert_iff.2 (.inr hused), hname⟩

include hname

/-- Only the new module can fail to be added. -/
theorem failsIn_addModules_insert :
    FailsIn new.file ((before ++ new :: after).foldlM addModule (ofTrees [] prelude)) := by
  obtain ⟨_, hdistinct⟩ := forall_mem_append.1 h.distinct
  obtain ⟨hbefore, hafter⟩ := forall_mem_append.1 hdistinct
  have hnames := h.names
  simp only [map_append, mem_append, nodup_append, not_or] at hnames hname
  have hknown : ((·.name) ∘ GraphModule.ofTree false) = Module.knownName := rfl
  have hfirst : FreshNames ((ofTrees [] prelude).modules.map (·.name)) (before.map Module.knownName) := by
    rw [map_name_ofTrees, append_nil]
    grind [FreshNames]
  rw [foldlM_append]
  refine .bind (.of_eq_ok (foldlM_addModule_eq_ok_iff.2 ⟨hbefore, hfirst, rfl⟩)) fun graph hgraph => ?_
  obtain ⟨_, _, rfl⟩ := foldlM_addModule_eq_ok_iff.1 hgraph
  rw [foldlM_cons]
  refine .bind (failsIn_addModule hread) fun graph hgraph => ?_
  obtain ⟨_, _, rfl⟩ := addModule_eq_ok_iff.1 hgraph
  refine .of_eq_ok (foldlM_addModule_eq_ok_iff.2 ⟨hafter, ?_, rfl⟩)
  simp only [map_append, map_name_ofTrees, append_nil, map_map, hknown, map_singleton]
  grind [FreshNames, GraphModule.ofTree]

/-- If the others can be assembled, what is wrong when a module joins them is found in its file. -/
theorem failsIn_build_insert : FailsIn new.file (build (before ++ new :: after) prelude) := by
  have hprelude := (forall_mem_append.1 h.distinct).1
  refine .bind (.of_eq_ok (ofPrelude_eq_ok_iff.2 ⟨hprelude, rfl⟩)) fun start hstart => ?_
  obtain ⟨_, rfl⟩ := ofPrelude_eq_ok_iff.1 hstart
  refine .bind (h.failsIn_addModules_insert hread hname) fun graph hgraph => ?_
  obtain rfl : graph = ofTrees (before ++ new :: after) prelude := by
    obtain ⟨_, _, rfl⟩ := foldlM_addModule_eq_ok_iff.1 hgraph
    simp [ofTrees]
  exact .last (.forM fun module_ hmodule => h.failsIn_checkUses_insert hread hmodule)

end Assembles

end

namespace Within

variable {registry registry' : Registry} {signatures signatures' : List Signature}
  (h : registry.graph.Within registry'.graph) (hrecords : registry.Records signatures)
  (hrecords' : registry'.Records signatures')
include h hrecords hrecords'

/-- The checked modules of a program are those of the program with one more, less that one. -/
theorem checkModules_insert {first last : List GraphModule} {added : GraphModule}
    (hgraph : registry.graph.modules = first ++ last) (hgraph' : registry'.graph.modules = first ++ added :: last)
    {outs outs' : List TypedModule} (houts : registry.checkModules = .ok outs)
    (houts' : registry'.checkModules = .ok outs') :
    ∃ outFirst out outLast, outs = outFirst ++ outLast ∧ outs' = outFirst ++ out :: outLast ∧
      out.erase = added.tree := by
  rw [Registry.checkModules, hgraph, mapM_append] at houts
  rw [Registry.checkModules, hgraph', mapM_append, mapM_cons] at houts'
  simp only [bind_eq_ok_iff, pure_eq_ok_iff] at houts houts'
  obtain ⟨outFirst, hfirst, outLast, hlast, rfl⟩ := houts
  obtain ⟨outFirst', hfirst', _, ⟨out, hout, outLast', hlast', rfl⟩, rfl⟩ := houts'
  have hsameFirst := h.mapM_checkModule hrecords hrecords'
    (fun _ hmodule => hgraph ▸ mem_append_left _ hmodule) hfirst
  have hsameLast := h.mapM_checkModule hrecords hrecords'
    (fun _ hmodule => hgraph ▸ mem_append_right _ hmodule) hlast
  obtain rfl : outFirst = outFirst' := Except.ok.inj (hsameFirst.symm.trans hfirst')
  obtain rfl : outLast = outLast' := Except.ok.inj (hsameLast.symm.trans hlast')
  exact ⟨outFirst, out, outLast, rfl, rfl, Registry.erase_of_checkModule hout⟩

variable (hplain : registry.graph.Plain) (hplain' : registry'.graph.Plain)
  {owner : String} (howner : owner ∈ registry.graph.modules.map (·.name))
include hplain hplain' howner

/-- A module's structs are the same in a program that has more modules. -/
theorem structs_get (name : String) : registry'.structs.get ⟨owner, name⟩ = registry.structs.get ⟨owner, name⟩ := by
  refine Table.get_eq_of_mono (h.registryAt hrecords hrecords' howner).structs fun hget => ?_
  obtain ⟨loc, fields, hdeclares⟩ := (hrecords'.describes hplain').declared hget
  have hdeclares := (h.declares_iff hrecords'.declared.well howner).1 hdeclares
  obtain ⟨info, hinfo, _⟩ := (hrecords.describes hplain).structs hdeclares
  exact ⟨info, hinfo⟩

theorem opaques_get (name : String) :
    registry'.types.opaques.get ⟨owner, name⟩ = registry.types.opaques.get ⟨owner, name⟩ := by
  refine Table.get_eq_of_mono (h.extendsAt hrecords.declared hrecords'.declared howner []).opaques fun hget => ?_
  obtain ⟨hname, loc, hdeclares⟩ := (hrecords'.describes hplain').types.opaqueTypes.1 hget
  have hdeclares := (h.declares_iff hrecords'.declared.well howner).1 hdeclares
  exact ⟨_, (hrecords.describes hplain).types.opaqueTypes.2 ⟨hname, loc, hdeclares⟩⟩

/-- A module's functions are the same in a program that has more modules. -/
theorem functions_get (name : String) :
    registry'.functions.get ⟨owner, name⟩ = registry.functions.get ⟨owner, name⟩ := by
  refine Table.get_eq_of_mono (h.registryAt hrecords hrecords' howner).functions fun {signature} hget => ?_
  have hdeclared' := hrecords'.declared
  rw [hrecords'.functions, hdeclared'.well.functionTable_get_iff hplain' hdeclared'.types hrecords'.signed] at hget
  obtain ⟨hname, hmem⟩ := hget
  obtain ⟨item, header, hdeclares, hheader, hheaderName, _⟩ :=
    hdeclared'.well.signature_spec hplain' hdeclared'.types hrecords'.signed hmem
  rw [hname] at hdeclares hheaderName
  have hdeclares := (h.declares_iff hdeclared'.well howner).1 hdeclares
  obtain ⟨found, hfound, _⟩ := (hrecords.describes hplain).functions hdeclares hheader
  obtain rfl : header.name = name := hheaderName
  exact ⟨found, hfound⟩

end Within

end Graph

/-- A checked program has all of another one as it was, and one module more. -/
structure Program.Adds (program program' : Program) (new : Module) : Prop where
  entry : program'.entry = program.entry
  structs : ∀ owner ∈ program.graph.modules.map (·.name), ∀ name,
    program'.registry.structs.get ⟨owner, name⟩ = program.registry.structs.get ⟨owner, name⟩
  opaques : ∀ owner ∈ program.graph.modules.map (·.name), ∀ name,
    program'.registry.types.opaques.get ⟨owner, name⟩ = program.registry.types.opaques.get ⟨owner, name⟩
  functions : ∀ owner ∈ program.graph.modules.map (·.name), ∀ name,
    program'.registry.functions.get ⟨owner, name⟩ = program.registry.functions.get ⟨owner, name⟩
  modules : ∃ first added last, program.modules = first ++ last ∧ program'.modules = first ++ added :: last ∧
    added.erase = new
  rust : ∀ module_ ∈ program.modules,
    Rust.moduleLines program'.registry module_ = Rust.moduleLines program.registry module_

/-- All full names of modules that were read are plain. -/
theorem Graph.plain_ofTrees {trees : List Module} {prelude : Option Module}
    (hparsed : ∀ tree ∈ prelude.toList ++ trees, ∃ file source, Module.ofSource file source = .ok tree) :
    (Graph.ofTrees trees prelude).Plain := by
  rintro owner item ⟨module_, hmodule, rfl, hitem, _⟩
  obtain ⟨hname, htree⟩ := Graph.of_mem_ofTrees hmodule
  obtain ⟨file, source, hsource⟩ := hparsed module_.tree htree
  rw [hname]
  exact (Module.settled_of_ofSource hsource).1.isPlain hitem

namespace Program

section

variable {trees before after : List Module} {new : Module} {prelude : Option Module} {program program' : Program}

/-- A program of modules that were read: its graph, its names and how it was checked. -/
theorem checked_of_parsed
    (hparsed : ∀ tree ∈ prelude.toList ++ trees, ∃ file source, Module.ofSource file source = .ok tree)
    (hprogram : ofModules trees prelude = .ok program) :
    program.graph = Graph.ofTrees trees prelude ∧ program.graph.Plain ∧ ∃ signatures, program.Checked signatures := by
  obtain ⟨hassembles, hcheck⟩ := ofModules_eq_ok_iff.1 hprogram
  have hplain : (Graph.ofTrees trees prelude).Plain := Graph.plain_ofTrees hparsed
  obtain ⟨hgraph, hchecked⟩ := (hassembles.regular hplain.namesApart).checked hcheck
  exact ⟨hgraph, hgraph ▸ hplain, hchecked⟩

theorem forall_mem_of_insert {p : Module → Prop} (h : ∀ tree ∈ prelude.toList ++ (before ++ new :: after), p tree) :
    ∀ tree ∈ prelude.toList ++ (before ++ after), p tree := by
  intro tree htree
  apply h
  simp only [mem_append, mem_cons] at htree ⊢
  tauto

variable (hparsed : ∀ tree ∈ prelude.toList ++ (before ++ new :: after), ∃ file source,
  Module.ofSource file source = .ok tree)
  (hprogram : ofModules (before ++ after) prelude = .ok program)
  (hmain : ∀ loc header body, Item.function loc header body ∈ new.items → header.name ≠ entryName)
include hparsed hprogram hmain

/-- The accepted program is the old one with one more checked module. -/
theorem adds_of_insert (hprogram' : ofModules (before ++ new :: after) prelude = .ok program') :
    program.Adds program' new := by
  obtain ⟨hgraph, hplain, signatures, hchecked⟩ := checked_of_parsed (forall_mem_of_insert hparsed) hprogram
  obtain ⟨hgraph', hplain', signatures', hchecked'⟩ := checked_of_parsed hparsed hprogram'
  have hwithin : program.graph.Within program'.graph := by
    rw [hgraph, hgraph']
    exact Graph.within_insert
  have hentries : ∀ {owner header}, program'.graph.HasEntry owner header ↔ program.graph.HasEntry owner header := by
    rw [hgraph, hgraph']
    exact Graph.hasEntry_insert_iff hmain
  have hstructs : ∀ owner ∈ program.graph.modules.map (·.name), ∀ name,
      program'.registry.structs.get ⟨owner, name⟩ = program.registry.structs.get ⟨owner, name⟩ :=
    fun owner howner => hwithin.structs_get hchecked.records hchecked'.records hplain hplain' howner
  refine ⟨hwithin.entry_eq hchecked hchecked' hentries, hstructs, fun owner howner => ?_, fun owner howner => ?_, ?_,
    fun module_ hmodule => ?_⟩
  · exact hwithin.opaques_get hchecked.records hchecked'.records hplain hplain' howner
  · exact hwithin.functions_get hchecked.records hchecked'.records hplain hplain' howner
  · have hmodules : program.graph.modules = (prelude.toList.map (GraphModule.ofTree true) ++
        before.map (GraphModule.ofTree false)) ++ after.map (GraphModule.ofTree false) := by
      simp [hgraph, Graph.ofTrees]
    have hmodules' : program'.graph.modules = (prelude.toList.map (GraphModule.ofTree true) ++
        before.map (GraphModule.ofTree false)) ++ GraphModule.ofTree false new :: after.map
          (GraphModule.ofTree false) := by
      simp [hgraph', Graph.ofTrees]
    exact hwithin.checkModules_insert hchecked.records hchecked'.records hmodules hmodules'
      hchecked.modules hchecked'.modules
  · exact Rust.moduleLines_congr hwithin.prelude (hstructs module_.name (hchecked.mem_names hmodule))

/-- The program with one more module is refused for something in the file of that module only. -/
theorem failsIn_insert (hname : new.knownName ∉ program.graph.modules.map (·.name)) :
    FailsIn new.file (ofModules (before ++ new :: after) prelude) := by
  have hread : ∀ tree ∈ prelude.toList ++ (before ++ new :: after), tree.ReadFrom tree.file := by
    intro tree htree
    obtain ⟨file, source, hsource⟩ := hparsed tree htree
    exact Module.readFrom_file hsource
  have hnew : new ∈ prelude.toList ++ (before ++ new :: after) := by simp
  obtain ⟨hgraph, _, signatures, hchecked⟩ := checked_of_parsed (forall_mem_of_insert hparsed) hprogram
  rw [hgraph, Graph.map_name_ofTrees] at hname
  have hassembles := (ofModules_eq_ok_iff.1 hprogram).1
  refine .bind (hassembles.failsIn_build_insert (hread new hnew) hname) fun graph' hbuild' => ?_
  have hread' := Graph.read_of_build hread hbuild'
  obtain ⟨hassembles', rfl⟩ := Graph.build_eq_ok_iff.1 hbuild'
  have hplain' : (Graph.ofTrees (before ++ new :: after) prelude).Plain := Graph.plain_ofTrees hparsed
  have hregular' := hassembles'.regular hplain'.namesApart
  have hwithin : program.graph.Within (Graph.ofTrees (before ++ new :: after) prelude) := by
    rw [hgraph]
    exact Graph.within_insert
  have hentries : ∀ {owner header}, (Graph.ofTrees (before ++ new :: after) prelude).HasEntry owner header ↔
      program.graph.HasEntry owner header := by
    rw [hgraph]
    exact Graph.hasEntry_insert_iff hmain
  refine hwithin.failsOnly_check hchecked hregular' hentries fun entry hentry => ?_
  obtain ⟨module_, hmodule, item, hitem, rfl⟩ := Graph.mem_items_iff.1 hentry
  rcases Graph.mem_modules_insert_iff.1 hmodule with rfl | hold
  · exact .inr (hregular'.well.itemFailsIn hplain' hread' hmodule hitem)
  · exact .inl (Graph.mem_items_iff.2 ⟨module_, hgraph ▸ hold, item, hitem, rfl⟩)

end

/-- A module of a new name, without an entry point, that joins a checked program of modules which were
    read leaves the program as it was. If the whole is refused, then for something in the file of that module. -/
theorem ofModules_insert {before after : List Module} {new : Module} {prelude : Option Module} {program : Program}
    (hparsed : ∀ tree ∈ prelude.toList ++ (before ++ new :: after), ∃ file source,
      Module.ofSource file source = .ok tree)
    (hprogram : ofModules (before ++ after) prelude = .ok program)
    (hname : new.knownName ∉ program.graph.modules.map (·.name))
    (hmain : ∀ loc header body, Item.function loc header body ∈ new.items → header.name ≠ entryName) :
    (∀ program', ofModules (before ++ new :: after) prelude = .ok program' → program.Adds program' new) ∧
      ∀ failure, ofModules (before ++ new :: after) prelude = .error failure → failure.LocatedIn new.file :=
  ⟨fun _ hprogram' => adds_of_insert hparsed hprogram hmain hprogram', failsIn_insert hparsed hprogram hmain hname⟩

/-- A module between two others, with a function that has the name of another one. -/
theorem ofModules_insert_between :
    ∃ util new app program program',
      Module.ofSource "util" "mod util; struct P {x: int} fn get(p: P) -> int {return p.x;}" = .ok util ∧
      Module.ofSource "more" "mod more; use util; struct Q {p: P} fn get(q: Q) -> int {return util::get(q.p);}" =
        .ok new ∧
      Module.ofSource "app" "mod app; use util; fn main() {let p: P = P {x: 1}; p.x = get(p) + 1;}" = .ok app ∧
      ofModules ([util] ++ [app]) none = .ok program ∧ new.knownName ∉ program.graph.modules.map (·.name) ∧
      ofModules ([util] ++ new :: [app]) none = .ok program' ∧ program.Adds program' new := by
  simp only [exists_and_left]
  refine exists_ok₄ (p := fun util new app program => (ofModules ([util] ++ new :: [app]) none).toOption.any fun _ =>
    !(program.graph.modules.map GraphModule.name).contains new.knownName &&
      !(new.items.map Item.name).contains entryName)
    (by decide +kernel) fun util new app program hutil hsource happ hprogram hall => ?_
  obtain ⟨program', hprogram', hnew⟩ := exists_eq_ok_of_any hall
  simp only [Bool.and_eq_true, Bool.not_eq_true', contains_eq_mem, decide_eq_false_iff_not] at hnew
  have hparsed : ∀ tree ∈ (none : Option Module).toList ++ ([util] ++ new :: [app]),
      ∃ file source, Module.ofSource file source = .ok tree :=
    forall_mem_cons.2 ⟨⟨_, _, hutil⟩, forall_mem_cons.2 ⟨⟨_, _, hsource⟩, forall_mem_singleton.2 ⟨_, _, happ⟩⟩⟩
  have hmain : ∀ loc header body, Item.function loc header body ∈ new.items → header.name ≠ entryName := by
    intro loc header body hitem heq
    exact hnew.2 (heq ▸ mem_map_of_mem hitem)
  have hadds := (ofModules_insert hparsed hprogram hnew.1 hmain).1 program' hprogram'
  exact ⟨hnew.1, program', hprogram', hadds⟩

end Program

end Smpl
