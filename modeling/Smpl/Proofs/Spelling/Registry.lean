import Smpl.Proofs.Spelling.Declaration

namespace Smpl

open List

namespace Registry

/-- The modules of a checked program with their paths spelled, and the types that they declare. -/
structure Retyped (registry : Registry) (signatures : List Signature) (full : String → Bool) (graph' : Graph)
    (types' : DeclaredTypes) : Prop where
  rewritten : registry.Rewritten full graph'
  tables : registry.Tabulates signatures
  structs : registry.types.structs.Forall₂ (registry.RespellsStruct full) types'.structs
  opaques : types'.opaques = registry.types.opaques

namespace Retyped

variable {registry : Registry} {signatures : List Signature} {full : String → Bool} {graph' : Graph}
  {types' : DeclaredTypes} (h : registry.Retyped signatures full graph' types') {decl : StructDecl}
  {viewer owner : String} {path : Path} {loc : Option Location} {header : Header TypeExpr} {item : Item}
include h

theorem structs_get {name : ItemName} (hget : registry.types.structs.get name = .ok decl) :
    ∃ decl', types'.structs.get name = .ok decl' ∧ decl'.name = decl.name := by
  obtain ⟨decl', hfind', hrespells⟩ := h.structs.find? (Table.get_eq_ok_iff.1 hget)
  exact ⟨decl', Table.get_eq_ok_iff.2 hfind', hrespells.1⟩

/-- A path that was found to be a struct is found to be one of the same full text after it is spelled. -/
theorem resolvePath_struct {name : String} {loc' : Location} {fields : List (Member TypeExpr)}
    (hviewer : viewer ∈ registry.graph.modules.map (·.name)) (hpath : path.isMissing = false)
    (hfound : registry.graph.resolvePath viewer path loc = .ok (some (owner, .struct loc' name fields)))
    (hget : registry.types.structs.get ⟨owner, name⟩ = .ok decl) :
    ∃ owner' loc' name' fields', graph'.resolvePath viewer (path.spelled (full viewer) (some decl.name)) loc =
      .ok (some (owner', .struct loc' name' fields')) ∧
        (ItemName.mk owner' name').text = (ItemName.mk owner name).text := by
  have hfind := Table.get_eq_ok_iff.1 hget
  obtain ⟨owner', item', out, hitem, hchecks, hfound'⟩ :=
    h.rewritten.resolvePath hviewer hpath hfound (h.tables.struct_declares hfind) rfl
  rcases hitem with heq | heq
  · cases heq
    obtain ⟨fields', herase⟩ := TypedItem.erase_spelled_of_struct (hchecks.erase)
    exact ⟨owner, loc', name, fields', by rw [hfound', herase], rfl⟩
  · cases heq
    obtain ⟨fields', herase⟩ := TypedItem.erase_spelled_of_struct (hchecks.erase)
    exact ⟨_, decl.loc, _, fields', by rw [hfound', herase], h.tables.keyed.text hfind⟩

theorem typeScope (hviewer : viewer ∈ registry.graph.modules.map (·.name)) (params : List TypeParam) :
    (TypeScope.mk registry.graph registry.types viewer (typeNamesOf params)).Respells (full viewer) .param
      ⟨graph', types', viewer, typeNamesOf params⟩ where
  typeNames := by simp
  params := by
    intro _ name type hlookup
    obtain ⟨param, _, heq⟩ := mem_map.1 (mem_of_lookup hlookup)
    cases heq
    rfl
  struct := by
    intro path loc owner loc' name fields decl hpath hfound hget
    obtain ⟨owner', loc'', name', fields', hfound', htext⟩ := h.resolvePath_struct hviewer hpath hfound hget
    obtain ⟨decl', hget', hname⟩ := h.structs_get hget
    rw [Table.get_eq_ok_iff, ← htext, ← Table.get_eq_ok_iff] at hget'
    exact ⟨owner', loc'', name', fields', decl', hfound', hget', hname⟩
  opaqueType := by
    intro path loc owner loc' name typeParams info hpath hfound hget
    obtain ⟨module_, hfind⟩ := (h.rewritten.exists_find? hviewer).1
    have hmeans := (h.rewritten.well.resolvePath_eq_ok_iff hfind hpath).1 hfound
    have htarget : registry.graph.Declares (ItemName.mk owner name).moduleName _ := hmeans.declares
    obtain ⟨owner', item', out, hitem, hchecks, hfound'⟩ := h.rewritten.resolvePath hviewer hpath hfound htarget rfl
    rw [or_self, Prod.mk.injEq] at hitem
    obtain ⟨rfl, rfl⟩ := hitem
    rw [TypedItem.erase_spelled_eq_opaqueType_iff.2 hchecks.erase] at hfound'
    exact ⟨hfound', h.opaques ▸ hget⟩

theorem checkHeader (howner : owner ∈ registry.graph.modules.map (·.name)) {loc : Location}
    {checked : Header TypedTypeExpr}
    (hchecked : registry.graph.checkHeader registry.types owner loc header = .ok checked) :
    graph'.checkHeader types' owner loc (checked.spelled (full owner)).erase = .ok (checked.spelled (full owner)) := by
  obtain ⟨htypeParams, hnames, params, result, hparams, hresult, rfl⟩ := Graph.checkHeader_eq_ok_iff.1 hchecked
  have hscope := h.typeScope howner (header.typeParamsOf owner)
  have hparamNames := TypeScope.names_of_mapM_member (full owner) hparams
  exact Graph.checkHeader_eq_ok_iff.2 ⟨htypeParams, hparamNames ▸ hnames, _, _, hscope.mapM_member hparams,
    hscope.resolveOption hresult, rfl⟩

/-- A struct that no other one eclipses has the fields that it had. -/
theorem structInfo {decl' : StructDecl} (hrespells : registry.RespellsStruct full decl decl')
    (hfind : registry.types.structs.find? decl.name.text = some decl) {info : StructInfo}
    (hinfo : registry.graph.structInfo registry.types decl = .ok info) : graph'.structInfo types' decl' = .ok info := by
  have howner := (h.tables.struct_declares hfind).mem_names
  obtain ⟨⟨moduleName, name⟩, fields, loc⟩ := decl
  obtain ⟨⟨moduleName', name'⟩, fields', loc'⟩ := decl'
  obtain ⟨hname, hloc, out, hchecks, herase⟩ := hrespells
  cases hname
  obtain rfl : loc' = loc := hloc
  dsimp only at hfind howner hchecks herase
  have hscope := h.typeScope howner []
  cases hchecks with
  | eclipsed hget hother =>
    -- The table has this very struct under its name, so no other one replaced it.
    rw [Table.get_eq_ok_iff, hfind, Option.some.injEq] at hget
    exact absurd (hget ▸ rfl) hother
  | @struct _ _ _ _ resolved _ _ hnames hresolved =>
    obtain ⟨_, known, hknown, rfl⟩ := Graph.structInfo_eq_ok_iff.1 hinfo
    obtain rfl : known = resolved := Except.ok.inj (hknown.symm.trans hresolved)
    obtain rfl : (known.map (Member.spelled (full moduleName))).map Member.erase = fields' :=
      (Item.struct.inj herase).2.2
    have hfieldNames := TypeScope.names_of_mapM_member (full moduleName) hresolved
    refine Graph.structInfo_eq_ok_iff.2 ⟨hfieldNames ▸ hnames, _, hscope.mapM_member hresolved, ?_⟩
    simp [Member.spelled, Function.comp_def]

theorem structs_eq : graph'.structs types' = .ok registry.structs := by
  refine Table.mapM_eq_ok_iff.2 (forall₂_of_common ?_ h.structs (Table.mapM_eq_ok_iff.1 h.tables.structs))
  rintro ⟨key, decl⟩ hentry ⟨key', decl'⟩ ⟨key'', info⟩ ⟨rfl, hrespells⟩ ⟨rfl, hinfo⟩
  have hfind := h.tables.keyed.find? hentry
  rw [← h.tables.keyed.texts _ hentry] at hfind
  exact ⟨rfl, h.structInfo hrespells hfind hinfo⟩

/-- Respelled headers give the same signatures. -/
theorem signatures_eq : graph'.signatures types' = .ok signatures := by
  have hsigned := h.tables.signed
  rw [Graph.signatures_eq_declarations] at hsigned ⊢
  cases hlists : registry.graph.declarations.mapM (registry.graph.signature? registry.types) with
  | error failure =>
    rw [hlists] at hsigned
    cases hsigned
  | ok lists =>
    have hlists' : graph'.declarations.mapM (graph'.signature? types') = .ok lists := by
      refine mapM_eq_ok_iff.2 (forall₂_of_common ?_ h.rewritten.declarations (mapM_eq_ok_iff.1 hlists))
      rintro ⟨owner, item⟩ hentry _ list ⟨out, hchecks, rfl⟩ hlist
      have howner := (Graph.mem_declarations_iff.1 hentry).mem_names
      dsimp only at hchecks ⊢
      cases hchecks with
      | use | struct | eclipsed | opaqueType | other => exact hlist
      | function hchecked | builtin hchecked =>
        rw [Graph.signature?, hchecked] at hlist
        rw [TypedItem.spelled, TypedItem.erase, Graph.signature?, h.checkHeader howner hchecked, ok_bind,
          Signature.ofHeader_spelled]
        exact hlist
    rw [hlists', ← hlists]
    exact hsigned

/-- A path that was found to be a function is found to be one of the same full text after it is spelled. -/
theorem resolvePath_function {signature : Signature} (hviewer : viewer ∈ registry.graph.modules.map (·.name))
    (hpath : path.isMissing = false) (hfound : registry.graph.resolvePath viewer path loc = .ok (some (owner, item)))
    (hheader : item.header? = some header) (hget : registry.functions.get ⟨owner, header.name⟩ = .ok signature) :
    ∃ owner' item' header', graph'.resolvePath viewer (path.spelled (full viewer) (some signature.name)) loc =
      .ok (some (owner', item')) ∧ item'.header? = some header' ∧
        registry.functions.get ⟨owner', header'.name⟩ = .ok signature := by
  obtain ⟨htext, target, htarget, hname, header', hheader'⟩ := h.tables.signature_declares (Table.get_eq_ok_iff.1 hget)
  obtain ⟨owner', item', out, hitem, hchecks, hfound'⟩ := h.rewritten.resolvePath hviewer hpath hfound htarget hname
  rcases hitem with heq | heq
  · cases heq
    obtain ⟨spelled, hspelled, hsame⟩ := TypedItem.header?_erase_spelled (hchecks.erase ▸ hheader)
    exact ⟨owner, _, spelled, hfound', hspelled, hsame ▸ hget⟩
  · cases heq
    obtain ⟨spelled, hspelled, hsame⟩ := TypedItem.header?_erase_spelled (hchecks.erase ▸ hheader')
    refine ⟨signature.name.moduleName, _, spelled, hfound', hspelled, ?_⟩
    rw [hsame, ← (Item.name_of_header? hheader').1, hname, Table.get_eq_ok_iff, htext]
    exact Table.get_eq_ok_iff.1 hget

theorem bodyContext (howner : owner ∈ registry.graph.modules.map (·.name)) (signature : Signature) :
    (registry.bodyContext owner signature).Respells (full owner) .param
      ((Registry.mk graph' types' registry.structs registry.functions).bodyContext owner signature) where
  scope := h.typeScope howner signature.typeParams
  struct := by
    intro path loc owner' loc' name fields info hpath hfound hget
    obtain ⟨decl, hdecl, hinfo⟩ := (Table.find?_of_mapM h.tables.structs).1 (Table.get_eq_ok_iff.1 hget)
    obtain ⟨_, _, _, rfl⟩ := Graph.structInfo_eq_ok_iff.1 hinfo
    obtain ⟨owner'', loc'', name', fields', hfound', htext⟩ :=
      h.resolvePath_struct howner hpath hfound (Table.get_eq_ok_iff.2 hdecl)
    refine ⟨owner'', loc'', name', fields', hfound', ?_⟩
    rw [Table.get_eq_ok_iff, htext]
    exact Table.get_eq_ok_iff.1 hget
  function := h.resolvePath_function howner
  structs := id
  fixes := registry.fixes_param
  result := (Ty.subst_param _).symm
  unit := Iff.rfl

/-- A checked item is checked to itself after its paths are spelled. -/
theorem checksItem (howner : owner ∈ registry.graph.modules.map (·.name)) {out : TypedItem}
    (hchecks : registry.ChecksItem owner item out) :
    (Registry.mk graph' types' registry.structs registry.functions).ChecksItem owner
      (out.spelled (full owner)).erase (out.spelled (full owner)) := by
  cases hchecks with
  | use => exact .use
  | struct hget hname hnames hresolved =>
    obtain ⟨decl', hget', hname'⟩ := h.structs_get hget
    have hfieldNames := TypeScope.names_of_mapM_member (full owner) hresolved
    exact .struct hget' (hname'.trans hname) (hfieldNames ▸ hnames) ((h.typeScope howner []).mapM_member hresolved)
  | eclipsed hget hname =>
    obtain ⟨decl', hget', hname'⟩ := h.structs_get hget
    exact .eclipsed hget' (hname' ▸ hname)
  | opaqueType => exact .opaqueType
  | function hchecked hbody =>
    have hbody' := (h.bodyContext howner _).body hbody
    rw [funext Local.subst_param, map_id', substBlock_param] at hbody'
    rw [← Signature.ofHeader_spelled (full owner), ← paramLocals_spelled (full owner)] at hbody'
    rw [TypedItem.spelled, TypedItem.erase, ← Signature.ofHeader_spelled (full owner)]
    exact .function (h.checkHeader howner hchecked) hbody'
  | builtin hchecked =>
    rw [TypedItem.spelled, TypedItem.erase, ← Signature.ofHeader_spelled (full owner)]
    exact .builtin (h.checkHeader howner hchecked)
  | other => exact .other

/-- The entry point of a program is where it was. -/
theorem entryModule {entry : Option String} (hentry : registry.graph.entryModule signatures = .ok entry) :
    graph'.entryModule signatures = .ok entry := by
  have hwell := h.rewritten.well
  have hwell' := h.rewritten.well'
  refine Graph.entryModule_of_perm ((perm_ext_iff_of_nodup hwell.entryPoints_nodup.of_map
    hwell'.entryPoints_nodup.of_map).2 ?_) hentry
  rintro ⟨owner, signature⟩
  rw [hwell.mem_entryPoints_iff h.tables.signed, hwell'.mem_entryPoints_iff h.signatures_eq, h.rewritten.entries]

/-- A checked module is checked to itself after its paths are spelled. -/
theorem checkModule {module_ : GraphModule} (hmodule : module_ ∈ registry.graph.modules) {out : TypedModule}
    (hout : registry.checkModule module_ = .ok out) :
    (Registry.mk graph' types' registry.structs registry.functions).checkModule
      (GraphModule.ofTree out.isPrelude (out.spelled (full out.name)).erase) = .ok (out.spelled (full out.name)) := by
  have hname : (GraphModule.ofTree out.isPrelude (out.spelled (full out.name)).erase).name = module_.name := by
    rw [(h.rewritten.well.modules module_ hmodule).name, ← erase_of_checkModule hout]
    rfl
  have howner : module_.name ∈ registry.graph.modules.map (·.name) := mem_map_of_mem hmodule
  obtain ⟨houtName, hitems⟩ : out.name = module_.name ∧
      module_.tree.items.mapM (registry.checkItem module_.name) = .ok out.items := by
    obtain ⟨items, hitems, rfl⟩ := checkModule_eq_ok_iff.1 hout
    exact ⟨rfl, hitems⟩
  refine checkModule_eq_ok_iff.2 ⟨(out.spelled (full out.name)).items, ?_, ?_⟩
  · rw [hname, houtName]
    refine (mapM_map_eq_ok_of_mem fun item' hitem' => ?_).trans (congrArg Except.ok (map_id _))
    obtain ⟨item, hitem, rfl⟩ := mem_map.1 hitem'
    obtain ⟨source, _, hchecked⟩ := (mem_of_mapM_eq_ok hitems).1 (mem_filter.1 hitem).1
    exact checkItem_eq_ok_iff.2 (h.checksItem howner (checkItem_eq_ok_iff.1 hchecked))
  · rw [hname, ← houtName]
    rfl

end Retyped

end Registry

end Smpl
