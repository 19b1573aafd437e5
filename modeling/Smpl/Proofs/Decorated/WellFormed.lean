import Smpl.Proofs.Decorated.Complete

namespace Smpl

open List

/-- A type that the registry of a program accounts for: its structs and opaque types are registered
    under their own names, opaque types have as many arguments as they declare, arrays have elements,
    and all type parameters are among the given ones. -/
inductive Ty.WellFormed (registry : Registry) (params : List TypeParam) : Ty → Prop
  | primitive {type : Primitive} : (∀ name, type ≠ .other name) → WellFormed registry params (.primitive type)
  | struct {name : ItemName} {info : StructInfo} :
    registry.structs.get name = .ok info → info.name = name → WellFormed registry params (.struct name)
  | opaqueType {name : ItemName} {info : OpaqueInfo} {args : List Ty} :
    registry.types.opaques.get name = .ok info → info.name = name → args.length = info.typeParams.length →
    (∀ arg ∈ args, arg.WellFormed registry params) → WellFormed registry params (.opaqueType name args)
  | param {param : TypeParam} : param ∈ params → WellFormed registry params (.param param)
  | array {element : Ty} {length : Int} :
    element.WellFormed registry params → 0 < length → WellFormed registry params (.array element length)
  | function {types : List Ty} {result : Ty} :
    (∀ type ∈ types, type.WellFormed registry params) → result.WellFormed registry params →
    WellFormed registry params (.function types result)
  | reference {target : Ty} : target.WellFormed registry params → WellFormed registry params (.reference target)

/-- A signature whose types are well formed with the type parameters that its own function declares. -/
structure Signature.WellFormed (registry : Registry) (signature : Signature) : Prop where
  declared : ∃ item header, registry.graph.Declares signature.name.moduleName item ∧ item.header? = some header ∧
    header.name = signature.name.name ∧ signature.typeParams = header.typeParamsOf signature.name.moduleName
  params : ∀ param ∈ signature.params, param.2.WellFormed registry signature.typeParams
  result : signature.result.WellFormed registry signature.typeParams

section

variable {registry : Registry} (h : registry.Describes) {params : List TypeParam}
include h

/-- What is declared is registered. -/
theorem Ty.Formed.wellFormed {type : Ty} (htype : type.Formed registry.graph params) :
    type.WellFormed registry params := by
  induction htype with
  | primitive hother => exact .primitive hother
  | struct hdeclares =>
    obtain ⟨info, hget, hname, _⟩ := h.structs hdeclares
    exact .struct hget hname
  | @opaqueType name loc typeParams _ hdeclares hlength _ ih =>
    have hget : registry.types.opaques.get name = .ok ⟨name, typeParams⟩ := h.types.opaqueTypes.2 ⟨rfl, loc, hdeclares⟩
    exact .opaqueType hget rfl hlength ih
  | param hparam => exact .param hparam
  | array _ hlength ih => exact .array ih hlength
  | function _ _ ihTypes ihResult => exact .function ihTypes ihResult
  | reference _ ih => exact .reference ih

end

namespace Registry.Records

variable {registry : Registry} {signatures : List Signature} (h : registry.Records signatures)
include h

/-- The structs of a registry have fields of formed types, without type parameters. -/
theorem structs_formed (hplain : registry.graph.Plain) (hread : registry.graph.Read) {entry : String × StructInfo}
    (hentry : entry ∈ registry.structs.entries) :
    (Ty.struct entry.2.name).Formed registry.graph [] ∧ ∀ field ∈ entry.2.fields, field.2.Formed registry.graph [] := by
  have hdescribes := h.describes hplain
  obtain ⟨⟨key, decl⟩, hdecl, _, hinfo⟩ := exists_of_forall₂_of_mem (Table.mapM_eq_ok_iff.1 h.structs).flip hentry
  have hdeclares : registry.graph.Declares decl.name.moduleName (.struct decl.loc decl.name.name decl.fields) := by
    rw [(Graph.declaredTypes_eq_ok_iff.1 h.declared.types).2] at hdecl
    rcases Table.mem_foldl_put hdecl with hdecl | hempty
    · exact Graph.mem_structDecls_iff.1 hdecl
    · cases hempty
  obtain ⟨_, fields, hfields, hname⟩ := Graph.structInfo_eq_ok_iff.1 hinfo
  rw [hname]
  refine ⟨.struct hdeclares, fun field hfield => ?_⟩
  obtain ⟨member, hmember, rfl⟩ := mem_map.1 hfield
  obtain ⟨file, hitem⟩ := hread.item hdeclares
  cases hitem with
  | struct _ hmembers =>
    exact ((hdescribes.knows hdeclares []).formed_of_mapM_member (Site.formed_nil _ _) hmembers hfields member hmember)

/-- The signatures of a registry are those of its functions, and their types are well formed. -/
theorem signature_wellFormed (hplain : registry.graph.Plain) (hread : registry.graph.Read) {signature : Signature}
    (hsignature : signature ∈ signatures) : signature.WellFormed registry := by
  have hdescribes := h.describes hplain
  obtain ⟨item, header, hdeclares, hheader, hname, htypeParams, hsigns⟩ :=
    h.declared.well.signature_spec hplain h.declared.types h.signed hsignature
  obtain ⟨hparams, hresult⟩ := hsigns.formed hread hdeclares hheader
  rw [← htypeParams] at hparams hresult
  exact ⟨⟨item, header, hdeclares, hheader, hname, htypeParams⟩,
    fun param hparam => (hparams param hparam).wellFormed hdescribes, hresult.wellFormed hdescribes⟩

theorem functions_get_iff (hplain : registry.graph.Plain) {name : ItemName} {signature : Signature} :
    registry.functions.get name = .ok signature ↔ signature.name = name ∧ signature ∈ signatures := by
  rw [h.functions]
  exact h.declared.well.functionTable_get_iff hplain h.declared.types h.signed

/-- The signature at a checked function is that of the registry. -/
theorem mem_signatures_of_checksItem {owner : String} {item : Item} (hitem : (owner, item) ∈ registry.graph.items)
    {out : TypedItem} (hchecks : registry.ChecksItem owner item out) {signature : Signature}
    (hsignature : (TypedNode.item out).decoration.signature = some signature) : signature ∈ signatures := by
  cases hchecks with
  | function hchecked | builtin hchecked =>
    cases hsignature
    exact (Graph.mem_signatures_iff h.signed).2 ⟨owner, _, _, _, hitem, rfl, hchecked, rfl⟩
  | use | struct | eclipsed | opaqueType | other => cases hsignature

end Registry.Records

namespace Program

variable {trees : List Module} {prelude : Option Module} {program : Program}

/-- All types in a checked program are well formed: those of struct fields without type parameters,
    those of a signature with the type parameters of its function, and those that checking left in an
    item with the type parameters of that item. The functions that an item names are registered, so
    their type parameters stay in their signatures. -/
theorem wellFormed_of_ofModules
    (hparsed : ∀ tree ∈ prelude.toList ++ trees, ∃ file source, Module.ofSource file source = .ok tree)
    (hprogram : ofModules trees prelude = .ok program) :
    (∀ entry ∈ program.registry.structs.entries, (Ty.struct entry.2.name).WellFormed program.registry [] ∧
      ∀ field ∈ entry.2.fields, field.2.WellFormed program.registry []) ∧
    (∀ entry ∈ program.registry.functions.entries, entry.2.WellFormed program.registry) ∧
    ∀ module_ ∈ program.modules, ∀ item ∈ module_.items,
      (∀ signature, (TypedNode.item item).decoration.signature = some signature →
        program.registry.functions.get signature.name = .ok signature) ∧
      ∀ node ∈ item.nodes,
        (∀ type ∈ node.decoration.types, type.WellFormed program.registry (item.typeParamsOf module_.name)) ∧
        ∀ signature, node.decoration.symbol = some (.function signature) →
          program.registry.functions.get signature.name = .ok signature := by
  obtain ⟨_, hplain, signatures, hchecked⟩ := checked_of_parsed hparsed hprogram
  obtain ⟨hdescribes, hread, hformed⟩ := formed_of_parsed hparsed hprogram
  have hrecords := hchecked.records
  refine ⟨fun entry hentry => ?_, fun entry hentry => ?_, fun module_ hmodule item hitem => ⟨?_, fun node hnode => ?_⟩⟩
  · obtain ⟨hname, hfields⟩ := hrecords.structs_formed hplain hread hentry
    exact ⟨hname.wellFormed hdescribes, fun field hfield => (hfields field hfield).wellFormed hdescribes⟩
  · rw [hrecords.functions] at hentry
    rcases Table.mem_foldl_put hentry with hsignature | hempty
    · exact hrecords.signature_wellFormed hplain hread hsignature
    · cases hempty
  · intro signature hsignature
    obtain ⟨owner, howner, _, written, hwritten, hchecks⟩ := Registry.exists_checksItem hchecked.modules hmodule hitem
    have hmem : (owner.name, written) ∈ program.registry.graph.items :=
      mem_flatMap.2 ⟨owner, howner, mem_map_of_mem hwritten⟩
    exact (hrecords.functions_get_iff hplain).2 ⟨rfl, hrecords.mem_signatures_of_checksItem hmem hchecks hsignature⟩
  · have hnode := hformed module_ hmodule item hitem node hnode
    refine ⟨fun type htype => (hnode.types type htype).wellFormed hdescribes, fun signature hsymbol => ?_⟩
    obtain ⟨name, hget⟩ := hnode.functions hsymbol
    rwa [((hrecords.functions_get_iff hplain).1 hget).1]

/-- A generic function that calls a builtin function of another module with a struct and with its own parameter. -/
theorem wellFormed_of_ofModules_generic :
    ∃ util app program,
      Module.ofSource "util"
        "mod util; struct P {x: [int; 2]} opaque Box(type T); builtin fn box(type T)(v: T) -> Box(type T);" =
        .ok util ∧
      Module.ofSource "app" ("mod app; use util; fn wrap(type U)(u: U, p: P) -> Box(type U) " ++
        "{let b: Box(type P) = box(type P)(p); return box(type U)(u);}") = .ok app ∧
      ofModules [util, app] none = .ok program ∧
      ∀ module_ ∈ program.modules, ∀ item ∈ module_.items, ∀ node ∈ item.nodes,
        ∀ type ∈ node.decoration.types, type.WellFormed program.registry (item.typeParamsOf module_.name) := by
  simp only [exists_and_left]
  refine exists_ok₃ (p := fun _ _ _ => true) (by decide +kernel) fun util app program hutil happ hprogram _ => ?_
  have hparsed : ∀ tree ∈ (none : Option Module).toList ++ [util, app],
      ∃ file source, Module.ofSource file source = .ok tree :=
    forall_mem_cons.2 ⟨⟨_, _, hutil⟩, forall_mem_singleton.2 ⟨_, _, happ⟩⟩
  obtain ⟨_, _, hitems⟩ := wellFormed_of_ofModules hparsed hprogram
  exact fun module_ hmodule item hitem node hnode => ((hitems module_ hmodule item hitem).2 node hnode).1

end Program

end Smpl
