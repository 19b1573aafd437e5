import Smpl.Proofs.Typing.Declarations

namespace Smpl

namespace TypeScope

variable {scope : TypeScope}

namespace Knows

variable (h : scope.Knows)
include h

/-- Resolving fields or parameters finds exactly the types that they denote. -/
theorem mapM_member_iff {members : List (Member TypeExpr)} {types : List (String × Ty)} :
    (∃ resolved, members.mapM scope.member = .ok resolved ∧
      (resolved.map fun member => (member.name, member.type.type)) = types) ↔
        DenotesMembers scope.site members types := by
  rw [exists_mapM_map_iff, DenotesMembers]
  refine forall₂_congr_of_mem fun member _ type => ?_
  simp only [member_eq_ok_iff, ← h.agrees member.type type.2]
  constructor
  · rintro ⟨_, ⟨resolved, hresolved, rfl⟩, rfl⟩
    exact ⟨rfl, resolved, hresolved, rfl⟩
  · obtain ⟨name, denoted⟩ := type
    rintro ⟨rfl, resolved, hresolved, rfl⟩
    exact ⟨_, ⟨resolved, hresolved, rfl⟩, rfl⟩

theorem exists_mapM_member_iff {members : List (Member TypeExpr)} :
    (∃ resolved, members.mapM scope.member = .ok resolved) ↔
      ∀ member ∈ members, ∃ type, Denotes scope.site member.type type := by
  rw [exists_mapM_iff]
  refine forall₂_congr fun member _ => ?_
  simp only [member_eq_ok_iff, ← h.agrees member.type _]
  constructor
  · rintro ⟨_, resolved, hresolved, _⟩
    exact ⟨resolved.type, resolved, hresolved, rfl⟩
  · rintro ⟨_, resolved, hresolved, _⟩
    exact ⟨_, resolved, hresolved, rfl⟩

end Knows

end TypeScope

theorem Graph.Declares.find? {graph : Graph} {owner : String} {item : Item} (h : graph.Declares owner item)
    (hgraph : graph.WellFormed) : ∃ module_, graph.find? owner = some module_ := by
  obtain ⟨module_, hfind, _⟩ := hgraph.declares_iff.1 h
  exact ⟨module_, hfind⟩

/-- The registry of a program says what its modules declare. -/
structure Registry.Describes (registry : Registry) : Prop where
  graph : registry.graph.WellFormed
  types : registry.types.Describes registry.graph
  structs : ∀ {owner loc name fields}, registry.graph.Declares owner (.struct loc name fields) →
    ∃ info, registry.structs.get ⟨owner, name⟩ = .ok info ∧ info.name = ⟨owner, name⟩ ∧
      (fields.map (·.name)).Nodup ∧ DenotesMembers ⟨registry.graph, owner, []⟩ fields info.fields
  declared : ∀ {name info}, registry.structs.get name = .ok info →
    ∃ loc fields, registry.graph.Declares name.moduleName (.struct loc name.name fields)
  functions : ∀ {owner item header}, registry.graph.Declares owner item → item.header? = some header →
    ∃ signature, registry.functions.get ⟨owner, header.name⟩ = .ok signature ∧
      signature.typeParams = header.typeParamsOf owner ∧
      registry.graph.Signs owner header signature.params signature.result

theorem DenotesMembers.names {site : Site} {members : List (Member TypeExpr)} {types : List (String × Ty)}
    (h : DenotesMembers site members types) : types.map (·.1) = members.map (·.name) := by
  induction h with
  | nil => rfl
  | cons hfirst _ ih => rw [List.map_cons, List.map_cons, ih, hfirst.1]

theorem Item.name_of_header? {item : Item} {header : Header TypeExpr} (h : item.header? = some header) :
    item.name = header.name ∧ item.isUse = false := by
  cases item <;> cases h <;> exact ⟨rfl, rfl⟩

namespace Graph

variable {graph : Graph} {types : DeclaredTypes} {owner : String} {header : Header TypeExpr}

theorem declares_of_header? {item : Item} (hitem : (owner, item) ∈ graph.items) (hheader : item.header? = some header) :
    graph.Declares owner item :=
  declares_iff_mem_items.2 ⟨hitem, (Item.name_of_header? hheader).2⟩

/-- A header is right exactly if its type parameters and parameters have names of their own and its
    types denote something; the signature has the types that they denote. -/
theorem checkHeader_iff_signs {loc : Location} (hknows : (graph.headerScope types owner header).Knows)
    {params : List (String × Ty)} {result : Ty} :
    (∃ checked, graph.checkHeader types owner loc header = .ok checked ∧
      (checked.params.map fun param => (param.name, param.type.type)) = params ∧
      (checked.result.map (·.type)).getD .unit = result) ↔
        DistinctTypeNames header.typeParams ∧ (header.params.map (·.name)).Nodup ∧
          graph.Signs owner header params result := by
  simp only [checkHeader_eq_ok_iff]
  constructor
  · rintro ⟨_, ⟨htypes, hnames, resolved, part, hresolved, hpart, rfl⟩, rfl, rfl⟩
    exact ⟨htypes, hnames, hknows.mapM_member_iff.1 ⟨resolved, hresolved, rfl⟩,
      hknows.resolveOption_iff_denotes.1 ⟨part, hpart, rfl⟩⟩
  · rintro ⟨htypes, hnames, hparams, hresult⟩
    obtain ⟨resolved, hresolved, rfl⟩ := hknows.mapM_member_iff.2 hparams
    obtain ⟨part, hpart, rfl⟩ := hknows.resolveOption_iff_denotes.2 hresult
    exact ⟨_, ⟨htypes, hnames, resolved, part, hresolved, hpart, rfl⟩, rfl, rfl⟩

namespace WellFormed

variable (h : graph.WellFormed) (hplain : graph.Plain) (htypes : graph.declaredTypes = .ok types) {item : Item}
  {signatures : List Signature} {signature : Signature} {structs : Table StructInfo} {name : ItemName}
include h hplain htypes

theorem knows (hdeclares : graph.Declares owner item) (typeNames : List (String × Ty)) :
    (TypeScope.mk graph types owner typeNames).Knows where
  graph := h
  types := h.describes_of_declaredTypes hplain htypes
  viewer := hdeclares.find? h

/-- Exactly the programs with right structs have a table of them. -/
theorem exists_structs_iff :
    (∃ structs, graph.structs types = .ok structs) ↔
      ∀ {owner loc name fields}, graph.Declares owner (.struct loc name fields) →
        (fields.map (·.name)).Nodup ∧ ∀ field ∈ fields, ∃ type, Denotes ⟨graph, owner, []⟩ field.type type := by
  have htable := (declaredTypes_eq_ok_iff.1 htypes).2
  rw [structs, htable, Table.exists_mapM_byName_iff (structDecls_plain hplain) h.structDecls_unique, ← htable]
  constructor
  · intro hinfos owner loc name fields hdeclares
    obtain ⟨info, hinfo⟩ := hinfos ⟨⟨owner, name⟩, fields, loc⟩ (mem_structDecls_iff.2 hdeclares)
    obtain ⟨hnames, resolved, hresolved, _⟩ := structInfo_eq_ok_iff.1 hinfo
    exact ⟨hnames, (h.knows hplain htypes hdeclares []).exists_mapM_member_iff.1 ⟨resolved, hresolved⟩⟩
  · intro hstructs decl hdecl
    have hdeclares := mem_structDecls_iff.1 hdecl
    obtain ⟨hnames, hfields⟩ := hstructs hdeclares
    obtain ⟨resolved, hresolved⟩ := (h.knows hplain htypes hdeclares []).exists_mapM_member_iff.2 hfields
    exact ⟨_, structInfo_eq_ok_iff.2 ⟨hnames, resolved, hresolved, rfl⟩⟩

/-- Exactly the programs with right headers have signatures. -/
theorem exists_signatures_iff_signs :
    (∃ signatures, graph.signatures types = .ok signatures) ↔
      ∀ {owner item header}, graph.Declares owner item → item.header? = some header →
        DistinctTypeNames header.typeParams ∧ (header.params.map (·.name)).Nodup ∧
          ∃ params result, graph.Signs owner header params result := by
  rw [exists_signatures_iff]
  constructor
  · intro hheaders owner item header hdeclares hheader
    obtain ⟨checked, hchecked⟩ := hheaders owner item header (declares_iff_mem_items.1 hdeclares).1 hheader
    obtain ⟨hnames, hparams, hsigns⟩ := (checkHeader_iff_signs (h.knows hplain htypes hdeclares _)).1
      ⟨checked, hchecked, rfl, rfl⟩
    exact ⟨hnames, hparams, _, _, hsigns⟩
  · intro hheaders owner item header hitem hheader
    have hdeclares := declares_of_header? hitem hheader
    obtain ⟨hnames, hparams, params, result, hsigns⟩ := hheaders hdeclares hheader
    obtain ⟨checked, hchecked, _⟩ := (checkHeader_iff_signs (h.knows hplain htypes hdeclares _)).2
      ⟨hnames, hparams, hsigns⟩
    exact ⟨checked, hchecked⟩

theorem signature_spec (hsignatures : graph.signatures types = .ok signatures) (hmem : signature ∈ signatures) :
    ∃ item header, graph.Declares signature.name.moduleName item ∧ item.header? = some header ∧
      header.name = signature.name.name ∧ signature.typeParams = header.typeParamsOf signature.name.moduleName ∧
      graph.Signs signature.name.moduleName header signature.params signature.result := by
  obtain ⟨owner, item, header, checked, hitem, hheader, hchecked, rfl⟩ := (mem_signatures_iff hsignatures).1 hmem
  have hdeclares := declares_of_header? hitem hheader
  have hsigns := ((checkHeader_iff_signs (h.knows hplain htypes hdeclares _)).1 ⟨checked, hchecked, rfl, rfl⟩).2.2
  obtain ⟨hname, htypeParams⟩ := names_of_checkHeader hchecked
  refine ⟨item, header, hdeclares, hheader, hname.symm, ?_, hsigns⟩
  simp only [Signature.ofHeader, Header.typeParamsOf, hname, htypeParams]

omit hplain htypes in
/-- No two signatures have the same full name. -/
theorem signatures_unique (hsignatures : graph.signatures types = .ok signatures) :
    ∀ signature ∈ signatures, ∀ signature' ∈ signatures, signature.name = signature'.name → signature = signature' := by
  intro signature hmem signature' hmem' hname
  obtain ⟨owner, item, header, checked, hitem, hheader, hchecked, rfl⟩ := (mem_signatures_iff hsignatures).1 hmem
  obtain ⟨owner', item', header', checked', hitem', hheader', hchecked', rfl⟩ :=
    (mem_signatures_iff hsignatures).1 hmem'
  obtain ⟨rfl, hchecks⟩ : owner = owner' ∧ checked.name = checked'.name := by
    simpa [Signature.ofHeader] using hname
  have hnames : item.name = item'.name := by
    rw [(Item.name_of_header? hheader).1, (Item.name_of_header? hheader').1, ← (names_of_checkHeader hchecked).1,
      ← (names_of_checkHeader hchecked').1, hchecks]
  obtain rfl := h.declares_unique (declares_of_header? hitem hheader) (declares_of_header? hitem' hheader') hnames
  obtain rfl : header = header' := Option.some.inj (hheader.symm.trans hheader')
  obtain rfl : checked = checked' := Except.ok.inj (hchecked.symm.trans hchecked')
  rfl

theorem structs_get (hstructs : graph.structs types = .ok structs) {name : String} {loc : Location}
    {fields : List (Member TypeExpr)} (hdeclares : graph.Declares owner (.struct loc name fields)) :
    ∃ info, structs.get ⟨owner, name⟩ = .ok info ∧ info.name = ⟨owner, name⟩ ∧ (fields.map (·.name)).Nodup ∧
      DenotesMembers ⟨graph, owner, []⟩ fields info.fields := by
  have hdecl : types.structs.get ⟨owner, name⟩ = .ok ⟨⟨owner, name⟩, fields, loc⟩ :=
    (h.describes_of_declaredTypes hplain htypes).structs.2 ⟨rfl, hdeclares⟩
  obtain ⟨hnames, hfields⟩ := (h.exists_structs_iff hplain htypes).1 ⟨structs, hstructs⟩ hdeclares
  have hknows := h.knows hplain htypes hdeclares []
  obtain ⟨resolved, hresolved⟩ := hknows.exists_mapM_member_iff.2 hfields
  refine ⟨⟨⟨owner, name⟩, resolved.map fun field => (field.name, field.type.type), loc⟩, ?_, rfl, hnames,
    hknows.mapM_member_iff.1 ⟨resolved, hresolved, rfl⟩⟩
  rw [Table.get_eq_ok_iff, Table.find?_of_mapM hstructs]
  exact ⟨_, Table.get_eq_ok_iff.1 hdecl, structInfo_eq_ok_iff.2 ⟨hnames, resolved, hresolved, rfl⟩⟩

theorem declares_of_structs_get (hstructs : graph.structs types = .ok structs) {info : StructInfo}
    (hget : structs.get name = .ok info) :
    ∃ loc fields, graph.Declares name.moduleName (.struct loc name.name fields) := by
  rw [Table.get_eq_ok_iff, Table.find?_of_mapM hstructs] at hget
  obtain ⟨decl, hdecl, _⟩ := hget
  have hdeclares := (h.describes_of_declaredTypes hplain htypes).structs.1 (Table.get_eq_ok_iff.2 hdecl)
  exact ⟨decl.loc, decl.fields, hdeclares.2⟩

/-- Every function has a signature, with the types that its header denotes. -/
theorem exists_signature (hsignatures : graph.signatures types = .ok signatures) (hdeclares : graph.Declares owner item)
    (hheader : item.header? = some header) :
    ∃ signature ∈ signatures, signature.name = ⟨owner, header.name⟩ ∧
      signature.typeParams = header.typeParamsOf owner ∧
      graph.Signs owner header signature.params signature.result := by
  have hitem := (declares_iff_mem_items.1 hdeclares).1
  obtain ⟨checked, hchecked⟩ := exists_signatures_iff.1 ⟨signatures, hsignatures⟩ owner item header hitem hheader
  obtain ⟨hname, htypeParams⟩ := names_of_checkHeader hchecked
  have hsigns := ((checkHeader_iff_signs (h.knows hplain htypes hdeclares _)).1 ⟨checked, hchecked, rfl, rfl⟩).2.2
  refine ⟨_, (mem_signatures_iff hsignatures).2 ⟨owner, item, header, checked, hitem, hheader, hchecked, rfl⟩,
    ?_, ?_, hsigns⟩
  · simp only [Signature.ofHeader, hname]
  · simp only [Signature.ofHeader, Header.typeParamsOf, hname, htypeParams]

/-- The signatures of a program are found under the full names of their functions. -/
theorem functionTable_get_iff (hsignatures : graph.signatures types = .ok signatures) :
    (functionTable signatures).get name = .ok signature ↔ signature.name = name ∧ signature ∈ signatures := by
  have hplain' : ∀ signature ∈ signatures, signature.name.IsPlain := by
    intro signature hmem
    obtain ⟨item, header, hdeclares, hheader, hname, _⟩ := h.signature_spec hplain htypes hsignatures hmem
    have := hplain hdeclares
    rwa [(Item.name_of_header? hheader).1, hname] at this
  exact Table.get_byName_iff hplain' (h.signatures_unique hsignatures)

theorem functions_get (hsignatures : graph.signatures types = .ok signatures) (hdeclares : graph.Declares owner item)
    (hheader : item.header? = some header) :
    ∃ signature, (functionTable signatures).get ⟨owner, header.name⟩ = .ok signature ∧
      signature.typeParams = header.typeParamsOf owner ∧
      graph.Signs owner header signature.params signature.result := by
  obtain ⟨signature, hmem, hname, hsigns⟩ := h.exists_signature hplain htypes hsignatures hdeclares hheader
  exact ⟨signature, (h.functionTable_get_iff hplain htypes hsignatures).2 ⟨hname, hmem⟩, hsigns⟩

/-- The tables that a program is checked with say what its modules declare. -/
theorem registry_describes (hstructs : graph.structs types = .ok structs)
    (hsignatures : graph.signatures types = .ok signatures) :
    (Registry.mk graph types structs (functionTable signatures)).Describes where
  graph := h
  types := h.describes_of_declaredTypes hplain htypes
  structs := h.structs_get hplain htypes hstructs
  declared := h.declares_of_structs_get hplain htypes hstructs
  functions := h.functions_get hplain htypes hsignatures

end WellFormed

end Graph

namespace Registry

/-- The tables of a registry are those of its modules. -/
structure Tabulates (registry : Registry) (signatures : List Signature) : Prop where
  types : registry.graph.declaredTypes = .ok registry.types
  structs : registry.graph.structs registry.types = .ok registry.structs
  signed : registry.graph.signatures registry.types = .ok signatures
  functions : registry.functions = functionTable signatures

namespace Tabulates

variable {registry : Registry} {signatures : List Signature} (h : registry.Tabulates signatures) {key : String}
  {signature : Signature}
include h

theorem keyed : registry.types.structs.Keyed StructDecl.name := by
  rw [(Graph.declaredTypes_eq_ok_iff.1 h.types).2]
  exact .byName _ _

theorem struct_declares {decl : StructDecl} (hfind : registry.types.structs.find? key = some decl) :
    registry.graph.Declares decl.name.moduleName (.struct decl.loc decl.name.name decl.fields) := by
  rw [(Graph.declaredTypes_eq_ok_iff.1 h.types).2] at hfind
  rcases Table.mem_foldl_put (Table.mem_of_find? hfind) with hmem | hempty
  · exact Graph.mem_structDecls_iff.1 hmem
  · cases hempty

theorem opaque_declares {info : OpaqueInfo} (hfind : registry.types.opaques.find? key = some info) :
    info.name.text = key ∧
      ∃ loc, registry.graph.Declares info.name.moduleName (.opaqueType loc info.name.name info.typeParams) := by
  rw [(Graph.declaredTypes_eq_ok_iff.1 h.types).2] at hfind
  refine ⟨(Table.Keyed.byName OpaqueInfo.name _).text hfind, ?_⟩
  rcases Table.mem_foldl_put (Table.mem_of_find? hfind) with hmem | hempty
  · exact Graph.mem_opaqueInfos_iff.1 hmem
  · cases hempty

theorem mem_signatures (hfind : registry.functions.find? key = some signature) :
    signature.name.text = key ∧ signature ∈ signatures := by
  rw [h.functions] at hfind
  refine ⟨(Table.Keyed.byName Signature.name signatures).text hfind, ?_⟩
  rcases Table.mem_foldl_put (Table.mem_of_find? hfind) with hmem | hempty
  · exact hmem
  · cases hempty

theorem signature_declares (hfind : registry.functions.find? key = some signature) :
    signature.name.text = key ∧ ∃ item, registry.graph.Declares signature.name.moduleName item ∧
      item.name = signature.name.name ∧ ∃ header, item.header? = some header := by
  obtain ⟨htext, hmem⟩ := h.mem_signatures hfind
  obtain ⟨owner, item, header, checked, hitem, hheader, hchecked, rfl⟩ := (Graph.mem_signatures_iff h.signed).1 hmem
  refine ⟨htext, item, Graph.declares_of_header? hitem hheader, ?_, header, hheader⟩
  rw [(Item.name_of_header? hheader).1, ← (Graph.names_of_checkHeader hchecked).1]
  rfl

end Tabulates

end Registry

end Smpl
