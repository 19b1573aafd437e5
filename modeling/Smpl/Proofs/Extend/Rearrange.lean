import Smpl.Proofs.Extend.Rust

namespace Smpl

open List

/-- The same things in some order, each one perhaps changed in some way. -/
def Rearranges {α : Type} (R : α → α → Prop) (as as' : List α) : Prop :=
  ∃ changed, Forall₂ R as changed ∧ changed.Perm as'

namespace Rearranges

variable {α : Type} {R : α → α → Prop} {as as' : List α} (h : Rearranges R as as')
include h

theorem symm (hsymm : ∀ {a b}, R a b → R b a) : Rearranges R as' as := by
  obtain ⟨changed, hrelated, hperm⟩ := h
  have hback : Forall₂ R changed as := hrelated.flip.imp fun _ _ => hsymm
  exact perm_comp_forall₂ hperm.symm hback

/-- Everything in one order has its place in the other. -/
theorem exists_of_mem {a : α} (ha : a ∈ as) : ∃ a' ∈ as', R a a' := by
  obtain ⟨changed, hrelated, hperm⟩ := h
  obtain ⟨a', ha', hrel⟩ := exists_of_forall₂_of_mem hrelated ha
  exact ⟨a', hperm.mem_iff.1 ha', hrel⟩

theorem map_perm {β : Type} {f : α → β} (hf : ∀ {a b}, R a b → f b = f a) : (as.map f).Perm (as'.map f) := by
  obtain ⟨changed, hrelated, hperm⟩ := h
  have hsame : as.map f = changed.map f := by
    rw [← forall₂_eq_eq_eq, forall₂_map_left_iff, forall₂_map_right_iff]
    exact hrelated.imp fun _ _ hrel => (hf hrel).symm
  exact hsame ▸ hperm.map f

end Rearranges

variable {α β : Type} {tree tree' : Module}

/-- What a step gives for things in one order is what it gives for them in another, in some order. -/
theorem mapM_perm {ε : Type} {f : α → Except ε β} {as as' : List α} (h : as.Perm as') {bs bs' : List β}
    (hbs : as.mapM f = .ok bs) (hbs' : as'.mapM f = .ok bs') : bs.Perm bs' := by
  have hunique : Relator.RightUnique fun a b => f a = .ok b := fun _ _ _ hb hc => Except.ok.inj (hb.symm.trans hc)
  exact rel_perm_imp hunique (mapM_eq_ok_iff.1 hbs) (mapM_eq_ok_iff.1 hbs') h

/-- A relation between the elements of two lists carries over to what steps give for them. -/
theorem forall₂_of_square {γ δ : Type} {R : α → β → Prop} {F : α → γ → Prop} {G : β → δ → Prop} {S : γ → δ → Prop}
    (hstep : ∀ {a b c d}, R a b → F a c → G b d → S c d) {as : List α} {bs : List β} {cs : List γ} {ds : List δ}
    (hR : Forall₂ R as bs) (hF : Forall₂ F as cs) (hG : Forall₂ G bs ds) : Forall₂ S cs ds := by
  induction hR generalizing cs ds with
  | nil =>
    cases hF
    cases hG
    exact .nil
  | cons hfirst _ ih =>
    cases hF with
    | cons hF hF' =>
      cases hG with
      | cons hG hG' => exact .cons (hstep hfirst hF hG) (ih hF' hG')

/-- The same module with its items in some order. -/
structure Module.Rearranged (tree tree' : Module) : Prop where
  loc : tree'.loc = tree.loc
  name : tree'.name = tree.name
  file : tree'.file = tree.file
  items : tree.items.Perm tree'.items

/-- The same checked module with its items in some order. -/
structure TypedModule.Rearranged (module_ module' : TypedModule) : Prop where
  name : module'.name = module_.name
  loc : module'.loc = module_.loc
  declaredName : module'.declaredName = module_.declaredName
  items : module_.items.Perm module'.items
  file : module'.file = module_.file
  isPrelude : module'.isPrelude = module_.isPrelude

structure GraphModule.Rearranged (module_ module' : GraphModule) : Prop where
  name : module'.name = module_.name
  isPrelude : module'.isPrelude = module_.isPrelude
  tree : module_.tree.Rearranged module'.tree

theorem Module.Rearranged.symm (h : tree.Rearranged tree') : tree'.Rearranged tree :=
  ⟨h.loc.symm, h.name.symm, h.file.symm, h.items.symm⟩

theorem TypedModule.Rearranged.symm {module_ module' : TypedModule} (h : module_.Rearranged module') :
    module'.Rearranged module_ :=
  ⟨h.name.symm, h.loc.symm, h.declaredName.symm, h.items.symm, h.file.symm, h.isPrelude.symm⟩

theorem Module.Rearranged.knownName (h : tree.Rearranged tree') : tree'.knownName = tree.knownName := by
  rw [Module.knownName, Module.knownName, h.name]

/-- Whether names are declared twice does not depend on the order of items. -/
theorem Module.Rearranged.distinct (h : tree.Rearranged tree') (hdistinct : tree.Distinct) : tree'.Distinct where
  items := ((h.items.filter _).map _).nodup_iff.1 hdistinct.items
  uses := ((h.items.filter _).map _).nodup_iff.1 hdistinct.uses
  primitive := fun item hitem => hdistinct.primitive item ((h.items.filter _).mem_iff.2 hitem)

theorem Module.Rearranged.ofTree (h : tree.Rearranged tree') (isPrelude : Bool) :
    (GraphModule.ofTree isPrelude tree).Rearranged (GraphModule.ofTree isPrelude tree') :=
  ⟨h.knownName, rfl, h⟩

/-- Tables that have each other's values are the same as maps. -/
theorem Table.find?_eq_of_mono {table table' : Table α}
    (h : ∀ {key value}, table.find? key = some value → table'.find? key = some value)
    (h' : ∀ {key value}, table'.find? key = some value → table.find? key = some value) (key : String) :
    table'.find? key = table.find? key :=
  Option.ext fun _ => ⟨h', h⟩

namespace Graph

section

variable {trees trees' : List Module} (h : Rearranges Module.Rearranged trees trees') (prelude : Option Module)
include h

/-- The modules of the program are rearranged as those that were read. -/
theorem rearranges_modules :
    Rearranges GraphModule.Rearranged (ofTrees trees prelude).modules (ofTrees trees' prelude).modules := by
  obtain ⟨changed, hrelated, hperm⟩ := h
  refine ⟨(ofTrees changed prelude).modules, ?_, (hperm.map _).append_left _⟩
  refine rel_append (forall₂_same.2 fun _ _ => ⟨rfl, rfl, rfl, rfl, rfl, .refl _⟩) ?_
  rw [forall₂_map_left_iff, forall₂_map_right_iff]
  exact hrelated.imp fun _ _ hrel => hrel.ofTree false

/-- Files can be assembled in every order, with their items in every order. -/
theorem Assembles.rearrange {prelude : Option Module} (hassembles : Assembles trees prelude) :
    Assembles trees' prelude := by
  have hsame : ∀ tree' ∈ prelude.toList ++ trees', ∃ tree ∈ prelude.toList ++ trees, tree.Rearranged tree' := by
    refine forall_mem_append.2 ⟨fun tree htree => ?_, fun tree' htree' => ?_⟩
    · exact ⟨tree, mem_append_left _ htree, rfl, rfl, rfl, .refl _⟩
    · obtain ⟨tree, htree, hrel⟩ := (h.symm Module.Rearranged.symm).exists_of_mem htree'
      exact ⟨tree, mem_append_right _ htree, hrel.symm⟩
  have hnames : ((prelude.toList ++ trees).map Module.knownName).Perm
      ((prelude.toList ++ trees').map Module.knownName) := by
    rw [map_append, map_append]
    exact (h.map_perm Module.Rearranged.knownName).append_left _
  refine ⟨fun tree' htree' => ?_, hnames.nodup_iff.1 hassembles.names, fun tree' htree' use huse hisUse => ?_⟩
  · obtain ⟨tree, htree, hrel⟩ := hsame tree' htree'
    exact hrel.distinct (hassembles.distinct tree htree)
  · obtain ⟨tree, htree, hrel⟩ := hsame tree' htree'
    obtain ⟨hother, hknown⟩ := hassembles.uses tree htree use (hrel.items.mem_iff.2 huse) hisUse
    exact ⟨hrel.knownName ▸ hother, hnames.mem_iff.1 hknown⟩

end

section

variable {graph graph' : Graph} (h : Rearranges GraphModule.Rearranged graph.modules graph'.modules)
include h

theorem within_of_rearranges (hprelude : graph'.prelude = graph.prelude) : graph.Within graph' := by
  refine ⟨hprelude, fun module_ hmodule => ?_⟩
  obtain ⟨module', hmodule', hrel⟩ := h.exists_of_mem hmodule
  exact ⟨module', hmodule', hrel.name, fun item => hrel.tree.items.symm.mem_iff⟩

theorem HasEntry.rearrange {owner : String} {header : Header TypeExpr} (hentry : graph.HasEntry owner header) :
    graph'.HasEntry owner header := by
  obtain ⟨module_, hmodule, hprelude, rfl, loc, body, hitem, hname⟩ := hentry
  obtain ⟨module', hmodule', hrel⟩ := h.exists_of_mem hmodule
  exact ⟨module', hmodule', hrel.isPrelude.trans hprelude, hrel.name, loc, body, hrel.tree.items.mem_iff.1 hitem, hname⟩

end

section

variable {trees trees' : List Module} (h : Rearranges Module.Rearranged trees trees') {prelude : Option Module}
include h

/-- A rearranged program has all modules of the other. -/
theorem within_rearrange : (ofTrees trees prelude).Within (ofTrees trees' prelude) :=
  within_of_rearranges (rearranges_modules h prelude) rfl

theorem hasEntry_rearrange_iff {owner : String} {header : Header TypeExpr} :
    (ofTrees trees' prelude).HasEntry owner header ↔ (ofTrees trees prelude).HasEntry owner header :=
  ⟨.rearrange (rearranges_modules (h.symm Module.Rearranged.symm) prelude), .rearrange (rearranges_modules h prelude)⟩

end

theorem NamesApart.of_within {graph graph' : Graph} (h : graph.NamesApart) (hwithin : graph'.Within graph) :
    graph'.NamesApart := by
  have hmem : ∀ {name}, name ∈ graph'.fullNames → name ∈ graph.fullNames := by
    intro name hname
    obtain ⟨item, hdeclares, hitem⟩ := mem_fullNames_iff.1 hname
    exact mem_fullNames_iff.2 ⟨item, hwithin.declares hdeclares, hitem⟩
  intro name hname name' hname' htext
  exact h name (hmem hname) name' (hmem hname') htext

/-- Checked modules of rearranged programs are rearranged in the same way. -/
theorem rearranges_checkModules {registry registry' : Registry} {signatures signatures' : List Signature}
    (h : Rearranges GraphModule.Rearranged registry.graph.modules registry'.graph.modules)
    (hprelude : registry'.graph.prelude = registry.graph.prelude) (hrecords : registry.Records signatures)
    (hrecords' : registry'.Records signatures') {outs outs' : List TypedModule}
    (houts : registry.checkModules = .ok outs) (houts' : registry'.checkModules = .ok outs') :
    Rearranges TypedModule.Rearranged outs outs' := by
  have hwithin := within_of_rearranges h hprelude
  obtain ⟨changed, hrelated, hperm⟩ := h
  obtain ⟨outs'', houts'', hperm'⟩ := perm_comp_forall₂ hperm (mapM_eq_ok_iff.1 houts')
  have hknown : Forall₂ (fun module_ out => module_ ∈ registry.graph.modules ∧
    registry.checkModule module_ = .ok out)
      registry.graph.modules outs :=
    forall₂_imp_of_mem (fun module_ hmodule _ hout => ⟨hmodule, hout⟩) (mapM_eq_ok_iff.1 houts)
  refine ⟨outs'', forall₂_of_square ?_ hrelated hknown houts'', hperm'⟩
  rintro module_ module' out out' hrel ⟨hmodule, hout⟩ hout'
  have hextends := hwithin.registryAt hrecords hrecords' (mem_map_of_mem hmodule)
  obtain ⟨items, hitems, rfl⟩ := Registry.checkModule_eq_ok_iff.1 hout
  obtain ⟨items', hitems', rfl⟩ := Registry.checkModule_eq_ok_iff.1 hout'
  rw [hrel.name] at hitems'
  have hsame : module_.tree.items.mapM (registry'.checkItem module_.name) = .ok items := by
    rw [mapM_eq_ok_iff] at hitems ⊢
    exact hitems.imp fun _ _ hitem => hextends.checkItem hitem
  exact ⟨hrel.name, hrel.tree.loc, hrel.tree.name, mapM_perm hrel.tree.items hsame hitems',
    hrel.tree.file, hrel.isPrelude⟩

end Graph

namespace Rust

variable {program program' : Program}

theorem acyclic_of_find? {structs structs' : Table StructInfo} (h : ∀ key, structs'.find? key = structs.find? key)
    (hacyclic : Acyclic structs) : Acyclic structs' := by
  have hholds : Holds structs' = Holds structs := by
    funext name part
    simp only [Holds, h]
  rwa [Acyclic, hholds]

/-- The text of an item depends on the table of structs as a map only. -/
theorem itemLines_of_find? (hprelude : program'.graph.prelude = program.graph.prelude)
    (hstructs : ∀ key, program'.registry.structs.find? key = program.registry.structs.find? key) (owner : String)
    (item : TypedItem) :
    itemLines program'.registry.structs ⟨program'.graph.prelude, owner, []⟩ item =
      itemLines program.registry.structs ⟨program.graph.prelude, owner, []⟩ item := by
  rw [hprelude]
  refine itemLines_congr (fun name => ?_) item
  rw [Table.get, Table.get, Table.require, Table.require, hstructs]

/-- A program has Rust text if a rearranged one has. -/
theorem exists_crateLines_of_rearranges (hmodules : Rearranges TypedModule.Rearranged program.modules program'.modules)
    (hprelude : program'.graph.prelude = program.graph.prelude)
    (hstructs : ∀ key, program'.registry.structs.find? key = program.registry.structs.find? key)
    (hcomplete : Complete program.registry.structs) (hcomplete' : Complete program'.registry.structs) {emitEntry : Bool}
    (h : ∃ lines, crateLines program emitEntry = .ok lines) : ∃ lines, crateLines program' emitEntry = .ok lines := by
  have hsame : ∀ module' ∈ program'.userModules, ∃ module_ ∈ program.userModules, module_.Rearranged module' := by
    intro module' hmodule'
    obtain ⟨hmodule', huser⟩ := mem_filter.1 hmodule'
    obtain ⟨module_, hmodule, hrel⟩ := (hmodules.symm TypedModule.Rearranged.symm).exists_of_mem hmodule'
    exact ⟨module_, mem_filter.2 ⟨hmodule, hrel.isPrelude ▸ huser⟩, hrel.symm⟩
  rw [exists_crateLines_iff, exists_checkContainment_iff hcomplete] at h
  rw [exists_crateLines_iff, exists_checkContainment_iff hcomplete']
  obtain ⟨hnames, hacyclic, hlines⟩ := h
  refine ⟨fun module' hmodule' => ?_, acyclic_of_find? hstructs hacyclic, fun module' hmodule' => ?_⟩
  · obtain ⟨module_, hmodule, hrel⟩ := hsame module' hmodule'
    obtain ⟨hname, hitems⟩ := checkModuleNames_eq_ok_iff.1 (hnames module_ hmodule)
    rw [checkModuleNames_eq_ok_iff, hrel.name, hrel.loc]
    exact ⟨hname, fun item hitem => hitems item (hrel.items.mem_iff.2 hitem)⟩
  · obtain ⟨module_, hmodule, hrel⟩ := hsame module' hmodule'
    have hitems := exists_moduleLines_iff.1 (hlines module_ hmodule)
    refine exists_moduleLines_iff.2 fun item hitem => ?_
    obtain ⟨lines, hline⟩ := hitems item (hrel.items.mem_iff.2 hitem)
    rw [hrel.name]
    exact ⟨lines, (itemLines_of_find? hprelude hstructs module_.name item).trans hline⟩

end Rust

/-- Two checked programs are the same but for the order of their modules and items. -/
structure Program.Rearranged (program program' : Program) : Prop where
  entry : program'.entry = program.entry
  structs : ∀ key, program'.registry.structs.find? key = program.registry.structs.find? key
  opaques : ∀ key, program'.registry.types.opaques.find? key = program.registry.types.opaques.find? key
  functions : ∀ key, program'.registry.functions.find? key = program.registry.functions.find? key
  modules : Rearranges TypedModule.Rearranged program.modules program'.modules
  rust : ∀ emitEntry, (∃ lines, Rust.crateLines program emitEntry = .ok lines) ↔
    ∃ lines, Rust.crateLines program' emitEntry = .ok lines
  texts : ∀ module_ ∈ program.modules, ∀ item ∈ module_.items,
    Rust.itemLines program'.registry.structs ⟨program'.graph.prelude, module_.name, []⟩ item =
      Rust.itemLines program.registry.structs ⟨program.graph.prelude, module_.name, []⟩ item

namespace Program

variable {trees trees' : List Module} {prelude : Option Module} {program program' : Program}

theorem checked_of_namesApart (hnames : (Graph.ofTrees trees prelude).NamesApart)
    (hprogram : ofModules trees prelude = .ok program) :
    program.graph = Graph.ofTrees trees prelude ∧ ∃ signatures, program.Checked signatures := by
  obtain ⟨hassembles, hcheck⟩ := ofModules_eq_ok_iff.1 hprogram
  exact (hassembles.regular hnames).checked hcheck

section

variable (hnames : (Graph.ofTrees trees prelude).NamesApart) (h : Rearranges Module.Rearranged trees trees')
include hnames h

/-- A program that is accepted in one order is accepted in every other one. -/
theorem exists_ofModules_of_rearranges (hprogram : ofModules trees prelude = .ok program) :
    ∃ program', ofModules trees' prelude = .ok program' := by
  have hwithin' : (Graph.ofTrees trees' prelude).Within (Graph.ofTrees trees prelude) :=
    Graph.within_rearrange (h.symm Module.Rearranged.symm)
  have hassembles' : Graph.Assembles trees' prelude := (ofModules_eq_ok_iff.1 hprogram).1.rearrange h
  have hregular' := hassembles'.regular (hnames.of_within hwithin')
  obtain ⟨hgraph, signatures, hchecked⟩ := checked_of_namesApart hnames hprogram
  -- All items are old ones, and those pass: there is no way left to fail.
  have hfails : FailsOnly (fun _ => False) (Graph.ofTrees trees' prelude).check.outcome := by
    refine Graph.Within.failsOnly_check hchecked (hgraph ▸ Graph.within_rearrange h) hregular'
      (hgraph ▸ Graph.hasEntry_rearrange_iff h) fun entry hentry => .inl ?_
    rw [hgraph]
    exact hwithin'.items hentry
  cases hout : (Graph.ofTrees trees' prelude).check.outcome with
  | ok program' => exact ⟨program', ofModules_eq_ok_iff.2 ⟨hassembles', hout⟩⟩
  | error failure => exact (hfails failure hout).elim

/-- Programs that are accepted in both orders are rearranged likewise. -/
theorem rearranged_of_ofModules (hprogram : ofModules trees prelude = .ok program)
    (hprogram' : ofModules trees' prelude = .ok program') : program.Rearranged program' := by
  have hback := h.symm Module.Rearranged.symm
  have hnames' := hnames.of_within (Graph.within_rearrange hback)
  obtain ⟨hgraph, signatures, hchecked⟩ := checked_of_namesApart hnames hprogram
  obtain ⟨hgraph', signatures', hchecked'⟩ := checked_of_namesApart hnames' hprogram'
  have hwithin : program.graph.Within program'.graph := by
    rw [hgraph, hgraph']
    exact Graph.within_rearrange h
  have hwithin' : program'.graph.Within program.graph := by
    rw [hgraph, hgraph']
    exact Graph.within_rearrange hback
  have hentries : ∀ {owner header}, program'.graph.HasEntry owner header ↔ program.graph.HasEntry owner header := by
    rw [hgraph, hgraph']
    exact Graph.hasEntry_rearrange_iff h
  have hmodules : Rearranges TypedModule.Rearranged program.modules program'.modules := by
    refine Graph.rearranges_checkModules ?_ hwithin.prelude hchecked.records hchecked'.records
      hchecked.modules hchecked'.modules
    rw [← Program.graph, ← Program.graph, hgraph, hgraph']
    exact Graph.rearranges_modules h prelude
  have hrecords := hchecked.records
  have hrecords' := hchecked'.records
  have hstructs : ∀ key, program'.registry.structs.find? key = program.registry.structs.find? key :=
    Table.find?_eq_of_mono
      (hwithin.structs hrecords.declared hrecords'.declared hrecords.structs hrecords'.structs)
      (hwithin'.structs hrecords'.declared hrecords.declared hrecords'.structs hrecords.structs)
  refine ⟨hwithin.entry_eq hchecked hchecked' hentries, hstructs, ?_, ?_, hmodules, fun emitEntry => ⟨?_, ?_⟩, ?_⟩
  · exact Table.find?_eq_of_mono (hwithin.declaredOpaque hrecords.declared hrecords'.declared)
      (hwithin'.declaredOpaque hrecords'.declared hrecords.declared)
  · exact Table.find?_eq_of_mono (hwithin.recordedFunction hrecords hrecords')
      (hwithin'.recordedFunction hrecords' hrecords)
  · exact Rust.exists_crateLines_of_rearranges hmodules hwithin.prelude hstructs hrecords.complete hrecords'.complete
  · exact Rust.exists_crateLines_of_rearranges (hmodules.symm TypedModule.Rearranged.symm) hwithin'.prelude
      (fun key => (hstructs key).symm) hrecords'.complete hrecords.complete
  · exact fun module_ _ item _ => Rust.itemLines_of_find? hwithin.prelude hstructs module_.name item

end

/-- The order of modules and of the items in them does not matter, provided that the full names of the
    items differ: the program is accepted in all orders or in none, and it is the same in all of them. -/
theorem ofModules_rearrange (hnames : (Graph.ofTrees trees prelude).NamesApart)
    (h : Rearranges Module.Rearranged trees trees') :
    ((∃ program, ofModules trees prelude = .ok program) ↔ ∃ program', ofModules trees' prelude = .ok program') ∧
      ∀ program program', ofModules trees prelude = .ok program → ofModules trees' prelude = .ok program' →
        program.Rearranged program' := by
  have hback := h.symm Module.Rearranged.symm
  have hnames' := hnames.of_within (Graph.within_rearrange hback)
  refine ⟨⟨?_, ?_⟩, fun program program' => rearranged_of_ofModules hnames h⟩
  · rintro ⟨program, hprogram⟩
    exact exists_ofModules_of_rearranges hnames h hprogram
  · rintro ⟨program', hprogram'⟩
    exact exists_ofModules_of_rearranges hnames' hback hprogram'

/-- Two modules in reverse order, and the items of one of them in reverse order. -/
theorem ofModules_rearrange_reversed :
    ∃ util app program program',
      Module.ofSource "util" "mod util; struct P {x: int} fn get(p: P) -> int {return p.x;}" = .ok util ∧
      Module.ofSource "app" "mod app; use util; struct Q {p: P} fn main() {let q: Q = Q {p: P {x: 1}}; get(q.p);}" =
        .ok app ∧
      (Graph.ofTrees [util, app] none).NamesApart ∧
      Rearranges Module.Rearranged [util, app] [{ app with items := app.items.reverse }, util] ∧
      ofModules [util, app] none = .ok program ∧
      ofModules [{ app with items := app.items.reverse }, util] none = .ok program' ∧ program.Rearranged program' := by
  simp only [exists_and_left]
  refine exists_ok₂ (p := fun util app => (ofModules [util, app] none).toOption.any fun _ =>
    (Graph.ofTrees [util, app] none).NamesApart) (by decide +kernel) fun util app _ _ hall => ?_
  obtain ⟨program, hprogram, hnames⟩ := exists_eq_ok_of_any hall
  have hnames : (Graph.ofTrees [util, app] none).NamesApart := of_decide_eq_true hnames
  have hrearranges : Rearranges Module.Rearranged [util, app] [{ app with items := app.items.reverse }, util] :=
    ⟨[util, { app with items := app.items.reverse }], .cons ⟨rfl, rfl, rfl, .refl _⟩
      (.cons ⟨rfl, rfl, rfl, (reverse_perm _).symm⟩ .nil), .swap _ _ _⟩
  obtain ⟨hiff, hsame⟩ := ofModules_rearrange hnames hrearranges
  obtain ⟨program', hprogram'⟩ := hiff.1 ⟨program, hprogram⟩
  exact ⟨hnames, hrearranges, program, hprogram, program', hprogram', hsame program program' hprogram hprogram'⟩

/-- Two modules with structs of the same full name, which no text can have. -/
def clashingModules : Module × Module :=
  let loc : Location := ⟨"<ast>", 0, 0⟩
  (⟨loc, some "a", [.struct loc "b::S" [⟨loc, "x", .named loc (.bare "int") []⟩]], loc.file⟩,
    ⟨loc, some "a::b", [.struct loc "S" [],
      .function loc ⟨"f", [], [], none⟩ ⟨loc, [.expression loc (.init loc (.bare "S") [])]⟩], loc.file⟩)

/-- Of two structs with the same full name only the later one is known, so that the order matters. -/
theorem ofModules_rearrange_clash :
    Rearranges Module.Rearranged [clashingModules.1, clashingModules.2] [clashingModules.2, clashingModules.1] ∧
      (∃ program, ofModules [clashingModules.1, clashingModules.2] none = .ok program) ∧
      ¬∃ program, ofModules [clashingModules.2, clashingModules.1] none = .ok program := by
  have hfirst : ((ofModules [clashingModules.1, clashingModules.2] none).toOption.any fun _ => true) = true := by
    decide +kernel
  have hsecond : (ofModules [clashingModules.2, clashingModules.1] none).toOption.isSome = false := by decide +kernel
  refine ⟨⟨_, forall₂_same.2 fun _ _ => ⟨rfl, rfl, rfl, .refl _⟩, .swap _ _ _⟩, ?_, ?_⟩
  · obtain ⟨program, hprogram, _⟩ := exists_eq_ok_of_any hfirst
    exact ⟨program, hprogram⟩
  · rintro ⟨program, hprogram⟩
    rw [hprogram] at hsecond
    cases hsecond

end Program

end Smpl
