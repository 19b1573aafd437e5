import Smpl.Proofs.Extend.Body
import Smpl.Proofs.Failure.Program

namespace Smpl

open List

variable {trees : List Module} {prelude : Option Module} {program : Program}
  {signatures signatures' : List Signature}

/-- Modules and a prelude as a checked program. -/
def Program.ofModules (trees : List Module) (prelude : Option Module) : Except Failure Program := do
  let graph ← Graph.build trees prelude
  graph.check.outcome

/-- A program is accepted exactly if it can be assembled and checked. -/
theorem Program.ofModules_eq_ok_iff :
    Program.ofModules trees prelude = .ok program ↔
      Graph.Assembles trees prelude ∧ (Graph.ofTrees trees prelude).check.outcome = .ok program := by
  simp only [Program.ofModules, bind_eq_ok_iff, Graph.build_eq_ok_iff]
  constructor
  · rintro ⟨_, ⟨hassembles, rfl⟩, hprogram⟩
    exact ⟨hassembles, hprogram⟩
  · rintro ⟨hassembles, hprogram⟩
    exact ⟨_, ⟨hassembles, rfl⟩, hprogram⟩

/-- What checking leaves of a program: its modules, their tables, and each of them checked against the tables. -/
theorem Program.spec_of_ofModules (h : Program.ofModules trees prelude = .ok program) :
    program.graph = Graph.ofTrees trees prelude ∧ (∃ signatures, program.registry.Tabulates signatures) ∧
      program.registry.checkModules = .ok program.modules := by
  obtain ⟨_, hcheck⟩ := Program.ofModules_eq_ok_iff.1 h
  obtain ⟨types, structs, signatures, htypes, hstructs, hsignatures, _, hregistry, hmodules⟩ :=
    Graph.check_eq_ok_iff.1 hcheck
  refine ⟨?_, ⟨signatures, ?_⟩, hmodules⟩
  · rw [Program.graph, hregistry]
  · rw [hregistry]
    exact ⟨htypes, hstructs, hsignatures, rfl⟩

/-- A registry holds what its modules declare, with these signatures of functions. -/
structure Registry.Records (registry : Registry) (signatures : List Signature) : Prop where
  declared : registry.graph.Declared registry.types
  structs : registry.graph.structs registry.types = .ok registry.structs
  signed : registry.graph.signatures registry.types = .ok signatures
  functions : registry.functions = functionTable signatures

/-- A program as checking its modules leaves it. -/
structure Program.Checked (program : Program) (signatures : List Signature) : Prop where
  records : program.registry.Records signatures
  entry : program.graph.entryModule signatures = .ok program.entry
  modules : program.registry.checkModules = .ok program.modules

theorem Graph.Assembles.regular (h : Graph.Assembles trees prelude)
    (hnames : (Graph.ofTrees trees prelude).NamesApart) : (Graph.ofTrees trees prelude).Regular :=
  have hbuild := Graph.build_eq_ok_iff.2 ⟨h, rfl⟩
  ⟨(Graph.build_spec hbuild).1, hnames, Graph.closed_of_build hbuild⟩

/-- The tables of a checked program record its own declarations. -/
theorem Graph.Regular.checked {graph : Graph} (h : graph.Regular) (hprogram : graph.check.outcome = .ok program) :
    program.graph = graph ∧ ∃ signatures, program.Checked signatures := by
  obtain ⟨registry, modules, entry⟩ := program
  obtain ⟨types, structs, signatures, htypes, hstructs, hsignatures, hentry, rfl, hmodules⟩ :=
    Graph.check_eq_ok_iff.1 hprogram
  exact ⟨rfl, signatures, ⟨⟨h, htypes⟩, hstructs, hsignatures, rfl⟩, hentry, hmodules⟩

theorem Program.Checked.mem_names (h : program.Checked signatures) {module_ : TypedModule}
    (hmodule : module_ ∈ program.modules) : module_.name ∈ program.graph.modules.map (·.name) := by
  obtain ⟨source, hsource, hchecked⟩ := (mem_of_mapM_eq_ok h.modules).1 hmodule
  obtain ⟨_, _, rfl⟩ := Registry.checkModule_eq_ok_iff.1 hchecked
  exact mem_map_of_mem hsource

theorem Registry.Records.describes {registry : Registry} (h : registry.Records signatures)
    (hplain : registry.graph.Plain) : registry.Describes := by
  obtain ⟨graph, types, structs, functions⟩ := registry
  obtain rfl : functions = functionTable signatures := h.functions
  exact h.declared.well.registry_describes hplain h.declared.types h.structs h.signed

namespace Graph

variable {graph graph' : Graph} {types : DeclaredTypes} {owner : String}

/-- Every entry point has a signature. -/
theorem HasEntry.exists_signature (hsignatures : graph.signatures types = .ok signatures) {header : Header TypeExpr}
    (h : graph.HasEntry owner header) : ∃ signature ∈ signatures, signature.name = ⟨owner, entryName⟩ := by
  obtain ⟨item, hdeclares, hheader, hname⟩ := h.declares
  have hitem := (declares_iff_mem_items.1 hdeclares).1
  obtain ⟨checked, hchecked⟩ := exists_signatures_iff.1 ⟨signatures, hsignatures⟩ owner item header hitem hheader
  refine ⟨_, (mem_signatures_iff hsignatures).2 ⟨owner, item, header, checked, hitem, hheader, hchecked, rfl⟩, ?_⟩
  rw [Signature.ofHeader, (names_of_checkHeader hchecked).1, hname]

/-- The entry point does not depend on the order in which it is looked for. -/
theorem entryModule_of_perm
    (hperm : (graph.entryPoints signatures).Perm (graph'.entryPoints signatures')) {entry : Option String}
    (hentry : graph.entryModule signatures = .ok entry) : graph'.entryModule signatures' = .ok entry := by
  have hsame : graph'.entryPoints signatures' = graph.entryPoints signatures := by
    rw [entryModule] at hentry
    split at hentry
    · next hnone =>
      rw [hnone] at hperm ⊢
      exact hperm.nil_eq.symm
    · next hone =>
      rw [hone] at hperm ⊢
      exact (singleton_perm.1 hperm).symm
    · cases hentry
  rw [entryModule, hsame]
  exact hentry

theorem ExtendsAt.signature? {types' : DeclaredTypes} (h : graph.ExtendsAt types graph' types' owner) {item : Item}
    (hsignatures : graph.signature? types (owner, item) = .ok signatures) :
    graph'.signature? types' (owner, item) = .ok signatures := by
  rcases signature?_eq_ok_iff.1 hsignatures with ⟨hnone, hnil⟩ | ⟨header, checked, hheader, hchecked, hone⟩
  · exact signature?_eq_ok_iff.2 (.inl ⟨hnone, hnil⟩)
  · exact signature?_eq_ok_iff.2 (.inr ⟨header, checked, hheader, h.checkHeader hchecked, hone⟩)

namespace Within

section

variable {graph graph' : Graph} (h : graph.Within graph')
include h

theorem items {entry : String × Item} (hentry : entry ∈ graph.items) : entry ∈ graph'.items := by
  obtain ⟨module_, hmodule, item, hitem, rfl⟩ := mem_items_iff.1 hentry
  obtain ⟨module', hmodule', hname, hitems⟩ := h.modules module_ hmodule
  exact mem_items_iff.2 ⟨module', hmodule', item, (hitems item).2 hitem, by rw [hname]⟩

variable (hentries : ∀ {owner header}, graph'.HasEntry owner header ↔ graph.HasEntry owner header)
include hentries

/-- Programs with the same entry points find the same one. -/
theorem entryPoints_perm {types' : DeclaredTypes} (hdeclared : graph.Declared types)
    (hdeclared' : graph'.Declared types') (hsignatures : graph.signatures types = .ok signatures)
    (hsignatures' : graph'.signatures types' = .ok signatures') :
    (graph.entryPoints signatures).Perm (graph'.entryPoints signatures') := by
  refine (perm_ext_iff_of_nodup hdeclared.well.entryPoints_nodup.of_map hdeclared'.well.entryPoints_nodup.of_map).2 ?_
  rintro ⟨owner, signature⟩
  rw [hdeclared.well.mem_entryPoints_iff hsignatures, hdeclared'.well.mem_entryPoints_iff hsignatures']
  have hmem : ∀ {signature}, signature ∈ signatures → signature ∈ signatures' :=
    h.mem_signatures hdeclared hdeclared' hsignatures hsignatures'
  constructor
  · rintro ⟨hsignature, hname, header, hentry⟩
    exact ⟨hmem hsignature, hname, header, hentries.2 hentry⟩
  · rintro ⟨hsignature, hname, header, hentry⟩
    obtain ⟨found, hfound, hfoundName⟩ := (hentries.1 hentry).exists_signature hsignatures
    obtain rfl := hdeclared'.well.signatures_unique hsignatures' found (hmem hfound) signature hsignature
      (hfoundName.trans hname.symm)
    exact ⟨hfound, hname, header, hentries.1 hentry⟩

end

variable {registry registry' : Registry} {signatures signatures' : List Signature}
  (h : registry.graph.Within registry'.graph) (hrecords : registry.Records signatures)
  (hrecords' : registry'.Records signatures')
include h hrecords hrecords'

/-- Functions are recorded as before in a program that has all of the modules. -/
theorem recordedFunction {key : String} {signature : Signature}
    (hfind : registry.functions.find? key = some signature) :
    registry'.functions.find? key = some signature := by
  rw [hrecords.functions] at hfind
  rw [hrecords'.functions]
  exact h.functions hrecords.declared hrecords'.declared hrecords.signed hrecords'.signed hfind

/-- What is found from a module of a program is found in one that has all of the program's modules. -/
theorem registryAt (howner : owner ∈ registry.graph.modules.map (·.name)) : registry.ExtendsAt registry' owner where
  scope := h.extendsAt hrecords.declared hrecords'.declared howner
  structs := Table.get_mono (h.structs hrecords.declared hrecords'.declared hrecords.structs hrecords'.structs)
  functions := Table.get_mono (h.recordedFunction hrecords hrecords')

/-- Checked modules of a program are the same in one that has all of the program's modules. -/
theorem mapM_checkModule {modules : List GraphModule} (hmodules : ∀ module_ ∈ modules, module_ ∈ registry.graph.modules)
    {outs : List TypedModule} (houts : modules.mapM registry.checkModule = .ok outs) :
    modules.mapM registry'.checkModule = .ok outs := by
  rw [mapM_eq_ok_iff] at houts ⊢
  refine forall₂_imp_of_mem (fun module_ hmodule out hout => ?_) houts
  have hextends := h.registryAt hrecords hrecords' (mem_map_of_mem (hmodules module_ hmodule))
  obtain ⟨items, hitems, rfl⟩ := Registry.checkModule_eq_ok_iff.1 hout
  refine Registry.checkModule_eq_ok_iff.2 ⟨items, ?_, rfl⟩
  rw [mapM_eq_ok_iff] at hitems ⊢
  exact hitems.imp fun _ _ hitem => hextends.checkItem hitem

end Within

/-- Programs with the same entry points have the same entry module. -/
theorem Within.entry_eq {program' : Program} (h : program.graph.Within program'.graph)
    (hchecked : program.Checked signatures) (hchecked' : program'.Checked signatures')
    (hentries : ∀ {owner header}, program'.graph.HasEntry owner header ↔ program.graph.HasEntry owner header) :
    program'.entry = program.entry := by
  have hperm := h.entryPoints_perm hentries hchecked.records.declared hchecked'.records.declared hchecked.records.signed
    hchecked'.records.signed
  exact Except.ok.inj (hchecked'.entry.symm.trans (entryModule_of_perm hperm hchecked.entry))

/-- What succeeded for an item of a program succeeds for it in one that has all of the program's modules. -/
theorem Within.itemFailsOnly (hchecked : program.Checked signatures) (h : program.graph.Within graph')
    (hregular : graph'.Regular) {P : Failure → Prop} {entry : String × Item} (hentry : entry ∈ program.graph.items) :
    graph'.ItemFailsOnly P entry := by
  obtain ⟨module_, hmodule, item, hitem, rfl⟩ := mem_items_iff.1 hentry
  have howner : module_.name ∈ program.graph.modules.map (·.name) := mem_map_of_mem hmodule
  have hdeclared := hchecked.records.declared
  refine ⟨fun types => ?added, fun htypes' hdecl => ?info, fun htypes' => ?signed,
    fun htypes' hstructs' hsignatures' => ?checked⟩
  case added =>
    refine .of_eq_ok (DeclaredTypes.add_eq_ok_iff.2 ⟨fun info hinfo => ?_, rfl⟩)
    exact (DeclaredTypes.foldlM_add_eq_ok_iff.1 hdeclared.types).1 info (mem_filterMap.2 ⟨_, hentry, hinfo⟩)
  case info =>
    have hfind := hdeclared.structs_find?_iff.2 ⟨mem_structDecls_iff.1 (mem_filterMap.2 ⟨_, hentry, hdecl⟩), rfl⟩
    obtain ⟨info, hinfo⟩ := Table.exists_mapM_iff.1 ⟨_, hchecked.records.structs⟩ _ (Table.mem_of_find? hfind)
    have hname := (Prod.mk.inj (structDecl?_eq_some_iff.1 hdecl)).1
    exact .of_eq_ok ((h.extendsAt hdeclared ⟨hregular, htypes'⟩ howner).structInfo hname.symm hinfo)
  case signed =>
    obtain ⟨lists, hlists, _⟩ := signatures_eq_ok_iff.1 hchecked.records.signed
    obtain ⟨found, hfound⟩ := exists_mapM_iff.1 ⟨lists, hlists⟩ _ hentry
    exact .of_eq_ok ((h.extendsAt hdeclared ⟨hregular, htypes'⟩ howner).signature? hfound)
  case checked =>
    obtain ⟨out, hout⟩ := Registry.exists_checkModules_iff.1 ⟨_, hchecked.modules⟩ module_ hmodule item hitem
    have hrecords' : (Registry.mk graph' _ _ (functionTable _)).Records _ :=
      ⟨⟨hregular, htypes'⟩, hstructs', hsignatures', rfl⟩
    exact .of_eq_ok ((h.registryAt hchecked.records hrecords' howner).checkItem (Registry.checkItem_eq_ok_iff.2 hout))

/-- A program that has all modules of a checked one fails only where it has more. -/
theorem Within.failsOnly_check (hchecked : program.Checked signatures) (h : program.graph.Within graph')
    (hregular : graph'.Regular) {P : Failure → Prop}
    (hentries : ∀ {owner header}, graph'.HasEntry owner header ↔ program.graph.HasEntry owner header)
    (hnew : ∀ entry ∈ graph'.items, entry ∈ program.graph.items ∨ graph'.ItemFailsOnly P entry) :
    FailsOnly P graph'.check.outcome := by
  refine Graph.failsOnly_check (fun entry hentry => ?_) fun htypes' hsignatures' => ?_
  · rcases hnew entry hentry with hold | hfails
    · exact h.itemFailsOnly hchecked hregular hold
    · exact hfails
  · have hperm := h.entryPoints_perm hentries hchecked.records.declared ⟨hregular, htypes'⟩ hchecked.records.signed
      hsignatures'
    exact .of_eq_ok (entryModule_of_perm hperm hchecked.entry)

end Graph

end Smpl
