import Smpl.Proofs.Rust.Cycle
import Smpl.Proofs.Spelling.Outcome

namespace Smpl

open List

namespace TypedItem

/-- The names of the type parameters that an item declares. -/
def typeParamNames : TypedItem → List String
  | .function _ header _ _ | .builtin _ header _ => header.typeParams
  | .opaqueType _ _ typeParams => typeParams
  | _ => []

/-- The names of the parameters that an item declares. -/
def paramNames : TypedItem → List String
  | .function _ header _ _ | .builtin _ header _ => header.params.map (·.name)
  | _ => []

/-- The names of the fields that an item declares. -/
def fieldNames : TypedItem → List String
  | .struct _ _ fields => fields.map (·.name)
  | .eclipsed _ _ fields => fields.map (·.name)
  | _ => []

end TypedItem

namespace Rust

/-- An item that can be written in Rust: Rust can take its names, it is no opaque type, and of the builtin functions it
    calls the prelude's only and uses none as a value. -/
structure SupportedItem (prelude : Option String) (item : TypedItem) : Prop where
  name : CanName item.name
  typeParams : ∀ name ∈ item.typeParamNames, CanName name
  params : ∀ name ∈ item.paramNames, CanName name
  lets : ∀ {symbol type value}, .stmt (.letBinding symbol type value) ∈ item.nodes → CanName symbol.name
  fields : ∀ name ∈ item.fieldNames, name ∉ unspellable
  notOpaque : ∀ loc name typeParams, item ≠ .opaqueType loc name typeParams
  builtinCalls : ∀ {loc path typeArgs args signature type},
    .expr (.call loc path typeArgs args (.function signature) type) ∈ item.nodes → signature.isBuiltin = true →
      some signature.name.moduleName = prelude
  builtinValues : ∀ {loc path signature}, .expr (.binding loc path (.function signature)) ∈ item.nodes →
    signature.isBuiltin = false

/-- A program that can be written in Rust: its modules and their items can, and no struct contains itself. -/
structure Supported (program : Program) : Prop where
  moduleNames : ∀ module_ ∈ program.userModules, CanName module_.name
  items : ∀ module_ ∈ program.userModules, ∀ item ∈ module_.items, SupportedItem program.graph.prelude item
  acyclic : ∀ name, ¬Relation.TransGen (Contains program.registry.structs) name name

end Rust

/-- The bindings of all blocks of an item. -/
def TypedItem.bindings : TypedItem → List Local
  | .function _ _ body _ => blockBindings body
  | _ => []

theorem TypedItem.filterMap_nodes (item : TypedItem) : item.nodes.filterMap TypedNode.declares? = item.bindings := by
  have hheader : ∀ header, (headerNodes header).filterMap TypedNode.declares? = [] := fun header =>
    filterMap_eq_nil_iff.2 (forall_mem_headerNodes (fun _ _ => rfl) (fun _ => rfl) header)
  cases item with
  | use | opaqueType | other => rfl
  | struct loc name fields =>
    refine filterMap_eq_nil_iff.2 (forall_mem_cons.2 ⟨rfl, ?_⟩)
    exact forall_mem_membersNodes (fun _ _ => rfl) rfl fun field _ => field.type.forall_mem_nodes fun _ => rfl
  | eclipsed loc name fields =>
    refine filterMap_eq_nil_iff.2 (forall_mem_cons.2 ⟨rfl, ?_⟩)
    exact forall_mem_unresolvedNodes (fun _ _ => rfl) (fun _ => rfl) fields
  | function loc header body signature =>
    rw [TypedItem.nodes, filterMap_cons_none rfl, filterMap_append, hheader, filterMap_blockNodes]
    rfl
  | builtin loc header signature =>
    rw [TypedItem.nodes, filterMap_cons_none rfl, hheader]
    rfl

/-- The only item among the nodes of an item is the item itself. -/
theorem TypedItem.eq_of_mem_nodes {item inner : TypedItem} (h : .item inner ∈ item.nodes) : inner = item := by
  have hnodes : ∀ node ∈ item.nodes, ∀ inner, node = .item inner → inner = item := by
    refine TypedItem.forall_mem_nodes ?plain ?type ?expr ?stmt ?unresolved ?item
    case item => exact fun inner heq => (TypedNode.item.inj heq).symm
    case plain => exact fun _ _ _ heq => by cases heq
    case type | expr | stmt | unresolved => exact fun _ _ heq => by cases heq
  exact hnodes _ h inner rfl

theorem TypedItem.mem_bindings_iff {item : TypedItem} {symbol : Local} :
    symbol ∈ item.bindings ↔ ∃ type value, .stmt (.letBinding symbol type value) ∈ item.nodes := by
  rw [← item.filterMap_nodes, mem_filterMap]
  constructor
  · rintro ⟨node, hnode, hdeclares⟩
    cases node with
    | stmt stmt =>
      cases stmt with
      | letBinding _ type value =>
        cases hdeclares
        exact ⟨type, value, hnode⟩
      | _ => cases hdeclares
    | _ => cases hdeclares
  · rintro ⟨type, value, hnode⟩
    exact ⟨_, hnode, rfl⟩

namespace Rust

theorem checkSpelling_eq_ok_iff {kind name : String} {loc : Location} {u : Unit} :
    checkSpelling kind name loc = .ok u ↔ name ∉ unspellable := by
  by_cases hname : name ∈ unspellable
  · simp [checkSpelling, hname, cannotLower]
  · simp [checkSpelling, hname]

/-- The names of an item are right exactly if Rust can take them. Those of an opaque type are not looked at. -/
theorem checkItemNames_eq_ok_iff {item : TypedItem}
    (hnotOpaque : ∀ loc name typeParams, item ≠ .opaqueType loc name typeParams) :
    checkItemNames item = .ok () ↔
      CanName item.name ∧ (∀ name ∈ item.typeParamNames, CanName name) ∧ (∀ name ∈ item.paramNames, CanName name) ∧
        (∀ symbol ∈ item.bindings, CanName symbol.name) ∧ ∀ name ∈ item.fieldNames, name ∉ unspellable := by
  cases item with
  | opaqueType loc name typeParams => exact absurd rfl (hnotOpaque loc name typeParams)
  | _ =>
    simp [-forM_eq_forM, checkItemNames, bind_eq_ok_iff, Graph.forM_eq_ok_iff, checkName_eq_ok_iff,
      checkSpelling_eq_ok_iff, TypedItem.typeParamNames, TypedItem.paramNames, TypedItem.bindings, TypedItem.fieldNames]

/-- All in an item has Rust text exactly if it is no opaque type, calls the builtin functions of the prelude only, and
    uses none as a value. -/
theorem haveText_nodes_iff {prelude : Option String} {item : TypedItem} :
    TypedNode.HaveText prelude item.nodes ↔
      (∀ loc name typeParams, item ≠ .opaqueType loc name typeParams) ∧
        (∀ {loc path typeArgs args signature type},
          .expr (.call loc path typeArgs args (.function signature) type) ∈ item.nodes → signature.isBuiltin = true →
            some signature.name.moduleName = prelude) ∧
        ∀ {loc path signature}, .expr (.binding loc path (.function signature)) ∈ item.nodes →
          signature.isBuiltin = false := by
  constructor
  · intro htext
    refine ⟨?_, fun hcall => htext _ hcall, fun hvalue => htext _ hvalue⟩
    rintro loc name typeParams rfl
    exact htext _ mem_cons_self
  · rintro ⟨hnotOpaque, hcalls, hvalues⟩ node hnode
    cases node with
    | expr e =>
      cases e with
      | binding loc path referent =>
        cases referent with
        | binding symbol => trivial
        | function signature => exact hvalues hnode
      | call loc path typeArgs args target type =>
        cases target with
        | binding symbol => trivial
        | function signature => exact hcalls hnode
      | _ => trivial
    | item inner =>
      obtain rfl := TypedItem.eq_of_mem_nodes hnode
      cases inner with
      | opaqueType loc name typeParams => exact absurd rfl (hnotOpaque loc name typeParams)
      | _ => trivial
    | _ => trivial

/-- An item can be written in Rust exactly if its names are right and all in it has Rust text. -/
theorem supportedItem_iff {prelude : Option String} {item : TypedItem} :
    SupportedItem prelude item ↔ checkItemNames item = .ok () ∧ TypedNode.HaveText prelude item.nodes := by
  rw [haveText_nodes_iff]
  constructor
  · intro h
    refine ⟨(checkItemNames_eq_ok_iff h.notOpaque).2 ⟨h.name, h.typeParams, h.params, ?_, h.fields⟩, h.notOpaque,
      h.builtinCalls, h.builtinValues⟩
    intro symbol hsymbol
    obtain ⟨type, value, hlet⟩ := TypedItem.mem_bindings_iff.1 hsymbol
    exact h.lets hlet
  · rintro ⟨hnames, hnotOpaque, hcalls, hvalues⟩
    obtain ⟨hname, htypeParams, hparams, hbindings, hfields⟩ := (checkItemNames_eq_ok_iff hnotOpaque).1 hnames
    refine ⟨hname, htypeParams, hparams, fun hlet => ?_, hfields, hnotOpaque, hcalls, hvalues⟩
    exact hbindings _ (TypedItem.mem_bindings_iff.2 ⟨_, _, hlet⟩)

end Rust

/-- The prelude can be spelled, and Rust has all that it declares. -/
theorem preludeModule_spec {withPrelude : Bool} {prelude : Option Module}
    (h : preludeModule withPrelude = .ok prelude) :
    ∀ tree ∈ prelude, tree.Spellable ∧ ∀ item ∈ tree.items, Rust.Intrinsic item := by
  obtain ⟨builtin, hbuiltin, hintrinsic⟩ := exists_prelude
  cases withPrelude with
  | false =>
    cases h
    simp
  | true =>
    rw [preludeModule, hbuiltin] at h
    cases h
    intro tree htree
    cases htree
    exact ⟨(Module.settled_of_ofSource hbuiltin).1, hintrinsic⟩

namespace Program

variable {trees : List Module} {prelude : Option Module} {program : Program}

/-- A module of the input was checked, and its items were. -/
theorem exists_userModule (hprogram : ofModules trees prelude = .ok program) {tree : Module} (htree : tree ∈ trees)
    {item : Item} (hitem : item ∈ tree.items) :
    ∃ module_ ∈ program.userModules, ∃ out ∈ module_.items, program.registry.ChecksItem tree.knownName item out := by
  obtain ⟨hgraph, _, hmodules⟩ := spec_of_ofModules hprogram
  have hmodule : GraphModule.ofTree false tree ∈ program.graph.modules := by
    rw [hgraph]
    exact mem_append_right _ (mem_map_of_mem htree)
  obtain ⟨module_, hmem, hchecked⟩ := exists_of_forall₂_of_mem (mapM_eq_ok_iff.1 hmodules) hmodule
  obtain ⟨items, hitems, rfl⟩ := Registry.checkModule_eq_ok_iff.1 hchecked
  obtain ⟨out, hout, hchecks⟩ := exists_of_forall₂_of_mem (mapM_eq_ok_iff.1 hitems) hitem
  exact ⟨_, mem_filter.2 ⟨hmem, rfl⟩, out, hout, Registry.checkItem_eq_ok_iff.1 hchecks⟩

theorem opaquesInPrelude (hprogram : ofModules trees prelude = .ok program)
    (hnotOpaque : ∀ module_ ∈ program.userModules, ∀ item ∈ module_.items, ∀ loc name typeParams,
      item ≠ .opaqueType loc name typeParams) : program.graph.OpaquesInPrelude := by
  rw [(spec_of_ofModules hprogram).1]
  rintro owner loc name typeParams ⟨module_, hmodule, rfl, hitem, _⟩
  rcases mem_append.1 hmodule with hfirst | hinput
  · obtain ⟨tree, htree, rfl⟩ := mem_map.1 hfirst
    exact Option.map_eq_some_iff.2 ⟨tree, Option.mem_toList.1 htree, rfl⟩
  · obtain ⟨tree, htree, rfl⟩ := mem_map.1 hinput
    obtain ⟨checked, hchecked, out, hout, hchecks⟩ := exists_userModule hprogram htree hitem
    cases hchecks
    exact absurd rfl (hnotOpaque checked hchecked _ hout loc name typeParams)

/-- With a prelude that has Rust text, the backend writes exactly the programs that can be written in Rust. -/
theorem exists_crateLines_iff_supported (hprogram : ofModules trees prelude = .ok program) {signatures : List Signature}
    (hlowers : Rust.Lowers program.registry signatures) (emitEntry : Bool) :
    (∃ lines, Rust.crateLines program emitEntry = .ok lines) ↔ Rust.Supported program := by
  have hcomplete : Rust.Complete program.registry.structs := complete_structs hprogram
  obtain ⟨_, _, hmodules⟩ := spec_of_ofModules hprogram
  have hlines : program.graph.OpaquesInPrelude → ∀ module_ ∈ program.userModules, ∀ item ∈ module_.items,
      ((∃ lines, Rust.itemLines program.registry.structs ⟨program.registry.graph.prelude, module_.name, []⟩ item =
        .ok lines) ↔ TypedNode.HaveText program.graph.prelude item.nodes) := fun hgiven module_ hmodule item hitem =>
    (hlowers.lowered_of_checkModules hmodules (mem_of_mem_filter hmodule) hitem).exists_iff hgiven
  rw [Rust.exists_crateLines_iff, Rust.exists_checkContainment_iff hcomplete, Rust.Acyclic, ← Rust.contains_eq_holds]
  simp only [Rust.checkModuleNames_eq_ok_iff, Rust.exists_moduleLines_iff, Rust.checkName_eq_ok_iff]
  constructor
  · rintro ⟨hnames, hacyclic, htexts⟩
    -- An opaque type of a user module has no text, so the opaque types are those of the prelude.
    have hgiven : program.graph.OpaquesInPrelude := by
      refine opaquesInPrelude hprogram fun module_ hmodule item hitem loc name typeParams heq => ?_
      obtain ⟨lines, hlines⟩ := htexts module_ hmodule item hitem
      rw [heq] at hlines
      cases hlines
    refine ⟨fun module_ hmodule => (hnames module_ hmodule).1, fun module_ hmodule item hitem => ?_, hacyclic⟩
    refine Rust.supportedItem_iff.2 ⟨(hnames module_ hmodule).2 item hitem, ?_⟩
    exact (hlines hgiven module_ hmodule item hitem).1 (htexts module_ hmodule item hitem)
  · intro h
    have hgiven : program.graph.OpaquesInPrelude := opaquesInPrelude hprogram fun module_ hmodule item hitem =>
      (h.items module_ hmodule item hitem).notOpaque
    have hitems := fun module_ hmodule item hitem => Rust.supportedItem_iff.1 (h.items module_ hmodule item hitem)
    refine ⟨fun module_ hmodule => ⟨h.moduleNames module_ hmodule, fun item hitem => ?_⟩, h.acyclic,
      fun module_ hmodule item hitem => ?_⟩
    · exact (hitems module_ hmodule item hitem).1
    · exact (hlines hgiven module_ hmodule item hitem).2 (hitems module_ hmodule item hitem).2

/-- The Rust backend refuses exactly the programs with a name that Rust cannot take, a struct that contains itself, an
    opaque type, a call of a builtin function that is not the prelude's, or a builtin function as a value; and it
    refuses them as constructs without Rust text. -/
theorem exists_generate_iff_supported {withPrelude : Bool} (hprelude : preludeModule withPrelude = .ok prelude)
    (hprogram : ofModules trees prelude = .ok program) (emitEntry : Bool) :
    ((∃ text, (Backends.standard.generate (.number 0) program emitEntry).outcome = .ok text) ↔ Rust.Supported program) ∧
      ∀ failure, (Backends.standard.generate (.number 0) program emitEntry).outcome = .error failure →
        Rust.IsLowering failure := by
  obtain ⟨hassembles, hcheck⟩ := ofModules_eq_ok_iff.1 hprogram
  obtain ⟨_, _, hmodules⟩ := spec_of_ofModules hprogram
  have hspec := preludeModule_spec hprelude
  obtain ⟨signatures, hlowers⟩ := Graph.lowers_of_build (fun tree htree => (hspec tree htree).1)
    (fun tree htree => (hspec tree htree).2) (Graph.build_eq_ok_iff.2 ⟨hassembles, rfl⟩) hcheck
  constructor
  · rw [← exists_crateLines_iff_supported hprogram hlowers emitEntry]
    simp only [Backends.outcome_generate_eq_ok_iff]
    constructor
    · rintro ⟨_, lines, hlines, _⟩
      exact ⟨lines, hlines⟩
    · rintro ⟨lines, hlines⟩
      exact ⟨_, lines, hlines, rfl⟩
  · rw [Backends.outcome_generate, Rust.outcome_generate]
    exact FailsOnly.last (hlowers.failsOnly_crateLines rfl hmodules emitEntry)

/-- With the built-in prelude, a function of the program can be called for an argument of `some`, and a builtin function
    of the program cannot. -/
theorem exists_generate_iff_supported_builtin :
    ∃ prelude, preludeModule true = .ok prelude ∧
      (∃ tree program,
        Module.ofSource "m"
          "mod m; fn b() -> int { return 1; } fn f() -> Option(type int) { return some(type int)(b()); }" =
          .ok tree ∧
        ofModules [tree] prelude = .ok program ∧ Rust.Supported program) ∧
      ∃ tree program,
        Module.ofSource "m" "mod m; builtin fn b() -> int; fn f() -> Option(type int) { return some(type int)(b()); }" =
          .ok tree ∧
        ofModules [tree] prelude = .ok program ∧ ¬Rust.Supported program ∧
        ∃ failure, (Backends.standard.generate (.number 0) program true).outcome = .error failure ∧
          Rust.IsLowering failure := by
  -- The characters of the prelude are found line by line, as where it is read first.
  have hall : ((tokenize preludeSource.file preludeSource.text.toList).toOption.any fun stream =>
      (Module.ofTokens preludeSource.file stream).toOption.any fun builtin =>
        ((Module.ofSource "m"
          "mod m; fn b() -> int { return 1; } fn f() -> Option(type int) { return some(type int)(b()); }").toOption.any
          fun tree => (ofModules [tree] (some builtin)).toOption.any fun program =>
            (Backends.standard.generate (.number 0) program true).outcome.toBool) &&
        ((Module.ofSource "m"
            "mod m; builtin fn b() -> int; fn f() -> Option(type int) { return some(type int)(b()); }").toOption.any
          fun tree => (ofModules [tree] (some builtin)).toOption.any fun program =>
            !(Backends.standard.generate (.number 0) program true).outcome.toBool)) = true := by
    refine of_exists_map_toList (p := fun chars => ((tokenize preludeSource.file chars).toOption.any _) = true) ?_
    iterate 13 refine exists_map_toList_cons String.toList_ofList ?_
    exact ⟨[], map_nil, by decide +kernel⟩
  obtain ⟨stream, hstream, hall⟩ := exists_eq_ok_of_any hall
  obtain ⟨builtin, hbuiltin, hall⟩ := exists_eq_ok_of_any hall
  have hprelude : preludeModule true = .ok (some builtin) := by
    rw [preludeModule, Module.ofSource, hstream, ok_bind, Module.parse, hbuiltin]
    rfl
  obtain ⟨hsupported, hrefused⟩ := Bool.and_eq_true_iff.1 hall
  simp only [exists_and_left]
  refine ⟨some builtin, hprelude, exists_ok₂ hsupported fun _ program _ hprogram htext => ?_,
    exists_ok₂ hrefused fun _ program _ hprogram hfails => ?_⟩
  · refine (exists_generate_iff_supported hprelude hprogram true).1.1 ?_
    cases hout : (Backends.standard.generate (.number 0) program true).outcome with
    | ok text => exact ⟨text, rfl⟩
    | error failure => simp [hout, Except.toBool] at htext
  · obtain ⟨hiff, hlowering⟩ := exists_generate_iff_supported hprelude hprogram true
    cases hout : (Backends.standard.generate (.number 0) program true).outcome with
    | ok text => simp [hout, Except.toBool] at hfails
    | error failure =>
      refine ⟨fun h => ?_, failure, rfl, hlowering failure hout⟩
      obtain ⟨text, htext⟩ := hiff.2 h
      cases hout.symm.trans htext

end Program

end Smpl
