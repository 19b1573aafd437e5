import Smpl.Proofs.Extend.Graph
import Smpl.Proofs.Spelling.Body
import Smpl.Proofs.Typing.Registry

namespace Smpl

namespace TypeScope

variable {decl : StructDecl} {key : String}

/-- All that is found in a scope of types is found in another one. -/
structure Extends (scope scope' : TypeScope) : Prop where
  typeNames : scope'.typeNames = scope.typeNames
  path : ∀ {path loc found}, path.isMissing = false →
    scope.graph.resolvePath scope.moduleName path loc = .ok (some found) →
    scope'.graph.resolvePath scope'.moduleName path loc = .ok (some found)
  structs : ∀ {name decl}, scope.types.structs.get name = .ok decl → scope'.types.structs.get name = .ok decl
  opaques : ∀ {name info}, scope.types.opaques.get name = .ok info → scope'.types.opaques.get name = .ok info

namespace Extends

variable {scope scope' : TypeScope} (h : scope.Extends scope')
include h

theorem respells : scope.Respells false .param scope' :=
  respells_of_found (by simp [h.typeNames]) h.path h.structs h.opaques

/-- A type that is resolved in a scope is resolved in the same way in one that extends it. -/
theorem resolveOption {type : Option TypeExpr} {resolved : Option TypedTypeExpr}
    (hresolved : scope.resolveOption type = .ok resolved) : scope'.resolveOption type = .ok resolved := by
  have hsame := h.respells.resolveOption hresolved
  rwa [spelledResult_false, erase_of_resolveOption hresolved] at hsame

theorem mapM_member {members : List (Member TypeExpr)} {parts : List (Member TypedTypeExpr)}
    (hparts : members.mapM scope.member = .ok parts) : members.mapM scope'.member = .ok parts := by
  have hsame := h.respells.mapM_member hparts
  rwa [Member.spelled_false, List.map_id, erase_of_mapM_member hparts] at hsame

end Extends

end TypeScope

/-- All declarations that are found from a module are found from it among others. -/
def Graph.ExtendsAt (graph : Graph) (types : DeclaredTypes) (graph' : Graph) (types' : DeclaredTypes)
    (owner : String) : Prop :=
  ∀ typeNames, (TypeScope.mk graph types owner typeNames).Extends ⟨graph', types', owner, typeNames⟩

namespace Graph.ExtendsAt

variable {graph graph' : Graph} {types types' : DeclaredTypes} {owner : String}
  (h : graph.ExtendsAt types graph' types' owner)
include h

/-- A header that is right stays so where more is found. -/
theorem checkHeader {loc : Location} {header : Header TypeExpr} {checked : Header TypedTypeExpr}
    (hchecked : graph.checkHeader types owner loc header = .ok checked) :
    graph'.checkHeader types' owner loc header = .ok checked := by
  obtain ⟨htypeParams, hnames, params, result, hparams, hresult, rfl⟩ := checkHeader_eq_ok_iff.1 hchecked
  exact checkHeader_eq_ok_iff.2 ⟨htypeParams, hnames, params, result, (h _).mapM_member hparams,
    (h _).resolveOption hresult, rfl⟩

/-- A struct is recorded as before where more is found. -/
theorem structInfo (hdecl : decl.name.moduleName = owner) {info : StructInfo}
    (hinfo : graph.structInfo types decl = .ok info) : graph'.structInfo types' decl = .ok info := by
  subst hdecl
  obtain ⟨hnames, fields, hfields, rfl⟩ := structInfo_eq_ok_iff.1 hinfo
  exact structInfo_eq_ok_iff.2 ⟨hnames, fields, (h []).mapM_member hfields, rfl⟩

end Graph.ExtendsAt

/-- A table that has all values of another one under their texts has them under their full names. -/
theorem Table.get_mono {α : Type} {table table' : Table α}
    (h : ∀ {key value}, table.find? key = some value → table'.find? key = some value) {name : ItemName} {value : α}
    (hget : table.get name = .ok value) : table'.get name = .ok value :=
  Table.get_eq_ok_iff.2 (h (Table.get_eq_ok_iff.1 hget))

/-- The full names of the items of a program. -/
def Graph.fullNames (graph : Graph) : List ItemName :=
  (graph.items.filter fun entry => !entry.2.isUse).map fun entry => ⟨entry.1, entry.2.name⟩

/-- No two full names of items have the same text. -/
def Graph.NamesApart (graph : Graph) : Prop :=
  ∀ name ∈ graph.fullNames, ∀ name' ∈ graph.fullNames, name.text = name'.text → name = name'

instance (graph : Graph) : Decidable graph.NamesApart :=
  inferInstanceAs (Decidable (∀ name ∈ graph.fullNames, ∀ name' ∈ graph.fullNames, name.text = name'.text →
    name = name'))

/-- The full names of a program are those of its declared items. -/
theorem Graph.mem_fullNames_iff {graph : Graph} {name : ItemName} :
    name ∈ graph.fullNames ↔ ∃ item, graph.Declares name.moduleName item ∧ item.name = name.name := by
  obtain ⟨owner, name⟩ := name
  simp only [fullNames, List.mem_map, List.mem_filter, Bool.not_eq_true', declares_iff_mem_items, ItemName.mk.injEq]
  constructor
  · rintro ⟨⟨_, item⟩, ⟨hitem, huse⟩, rfl, rfl⟩
    exact ⟨item, ⟨hitem, huse⟩, rfl⟩
  · rintro ⟨item, ⟨hitem, huse⟩, rfl⟩
    exact ⟨(owner, item), ⟨hitem, huse⟩, rfl, rfl⟩

theorem Graph.Plain.namesApart {graph : Graph} (h : graph.Plain) : graph.NamesApart := by
  rintro ⟨owner, _⟩ hname name' _ htext
  obtain ⟨item, hdeclares, rfl⟩ := mem_fullNames_iff.1 hname
  exact (h hdeclares).eq_of_text_eq htext

/-- A program whose modules and items can be told apart and that refers to its own modules. -/
structure Graph.Regular (graph : Graph) : Prop where
  well : graph.WellFormed
  names : graph.NamesApart
  closed : graph.Closed

/-- A program with the types that it declares. -/
structure Graph.Declared (graph : Graph) (types : DeclaredTypes) : Prop extends graph.Regular where
  types : graph.declaredTypes = .ok types

namespace Graph.Declared

variable {graph : Graph} {types : DeclaredTypes} (h : graph.Declared types)
include h

/-- The struct table holds just the declared structs, if full names differ. -/
theorem structs_find?_iff :
    types.structs.find? key = some decl ↔
      graph.Declares decl.name.moduleName (.struct decl.loc decl.name.name decl.fields) ∧ decl.name.text = key := by
  have hmem : ∀ {decl}, decl ∈ graph.items.filterMap structDecl? → decl.name ∈ graph.fullNames := fun hdecl =>
    mem_fullNames_iff.2 ⟨_, mem_structDecls_iff.1 hdecl, rfl⟩
  rw [(declaredTypes_eq_ok_iff.1 h.types).2, Table.find?_byName_iff, mem_structDecls_iff]
  intro decl hdecl decl' hdecl' htext
  exact h.well.structDecls_unique decl hdecl decl' hdecl'
    (h.names decl.name (hmem hdecl) decl'.name (hmem hdecl') htext)

theorem opaques_find?_iff {info : OpaqueInfo} :
    types.opaques.find? key = some info ↔
      (∃ loc, graph.Declares info.name.moduleName (.opaqueType loc info.name.name info.typeParams)) ∧
        info.name.text = key := by
  rw [(declaredTypes_eq_ok_iff.1 h.types).2, Table.find?_byName_iff, mem_opaqueInfos_iff]
  rintro ⟨name, typeParams⟩ hinfo ⟨name', typeParams'⟩ hinfo' htext
  obtain ⟨loc, hdeclares⟩ := mem_opaqueInfos_iff.1 hinfo
  obtain ⟨loc', hdeclares'⟩ := mem_opaqueInfos_iff.1 hinfo'
  obtain rfl : name = name' := h.names name (mem_fullNames_iff.2 ⟨_, hdeclares, rfl⟩) name'
    (mem_fullNames_iff.2 ⟨_, hdeclares', rfl⟩) htext
  cases h.well.declares_unique hdeclares hdeclares' rfl
  rfl

/-- The function table holds just the signatures, if full names differ. -/
theorem functions_find?_iff {signatures : List Signature} (hsignatures : graph.signatures types = .ok signatures)
    {signature : Signature} :
    (functionTable signatures).find? key = some signature ↔ signature ∈ signatures ∧ signature.name.text = key := by
  have hmem : ∀ {signature}, signature ∈ signatures → signature.name ∈ graph.fullNames := by
    intro signature hsignature
    obtain ⟨owner, item, header, checked, hitem, hheader, hchecked, rfl⟩ :=
      (mem_signatures_iff hsignatures).1 hsignature
    refine mem_fullNames_iff.2 ⟨item, declares_of_header? hitem hheader, ?_⟩
    rw [(Item.name_of_header? hheader).1, ← (names_of_checkHeader hchecked).1]
    rfl
  refine Table.find?_byName_iff fun signature hsignature signature' hsignature' htext => ?_
  exact h.well.signatures_unique hsignatures signature hsignature signature' hsignature'
    (h.names signature.name (hmem hsignature) signature'.name (hmem hsignature') htext)

end Graph.Declared

namespace Graph.Within

variable {graph graph' : Graph} (h : graph.Within graph') {types types' : DeclaredTypes}
  (hdeclared : graph.Declared types) (hdeclared' : graph'.Declared types') {key : String}
  {signatures signatures' : List Signature} {signature : Signature}
include h hdeclared hdeclared'

theorem declaredStruct (hfind : types.structs.find? key = some decl) : types'.structs.find? key = some decl := by
  obtain ⟨hdeclares, htext⟩ := hdeclared.structs_find?_iff.1 hfind
  exact hdeclared'.structs_find?_iff.2 ⟨h.declares hdeclares, htext⟩

theorem declaredOpaque {info : OpaqueInfo} (hfind : types.opaques.find? key = some info) :
    types'.opaques.find? key = some info := by
  obtain ⟨⟨loc, hdeclares⟩, htext⟩ := hdeclared.opaques_find?_iff.1 hfind
  exact hdeclared'.opaques_find?_iff.2 ⟨⟨loc, h.declares hdeclares⟩, htext⟩

/-- From each module of a program the same is found in one that has all of its modules. -/
theorem extendsAt {owner : String} (howner : owner ∈ graph.modules.map (·.name)) :
    graph.ExtendsAt types graph' types' owner := fun _ =>
  { typeNames := rfl
    path := fun hpath => h.resolvePath hdeclared'.well hdeclared.well hdeclared.closed howner hpath
    structs := Table.get_mono (h.declaredStruct hdeclared hdeclared')
    opaques := Table.get_mono (h.declaredOpaque hdeclared hdeclared') }

/-- Recorded structs are recorded in the same way in a program that has all of the modules. -/
theorem structs {structs structs' : Table StructInfo} (hstructs : graph.structs types = .ok structs)
    (hstructs' : graph'.structs types' = .ok structs') {info : StructInfo} (hfind : structs.find? key = some info) :
    structs'.find? key = some info := by
  obtain ⟨decl, hdecl, hinfo⟩ := (Table.find?_of_mapM hstructs).1 hfind
  have hextends := h.extendsAt hdeclared hdeclared' (hdeclared.structs_find?_iff.1 hdecl).1.mem_names
  exact (Table.find?_of_mapM hstructs').2 ⟨decl, h.declaredStruct hdeclared hdeclared' hdecl,
    hextends.structInfo rfl hinfo⟩

/-- Functions keep their signatures in a program that has all of the modules. -/
theorem mem_signatures (hsignatures : graph.signatures types = .ok signatures)
    (hsignatures' : graph'.signatures types' = .ok signatures') (hmem : signature ∈ signatures) :
    signature ∈ signatures' := by
  obtain ⟨owner, item, header, checked, hitem, hheader, hchecked, rfl⟩ := (mem_signatures_iff hsignatures).1 hmem
  have hdeclares := declares_of_header? hitem hheader
  have hextends := h.extendsAt hdeclared hdeclared' hdeclares.mem_names
  refine (mem_signatures_iff hsignatures').2
    ⟨owner, item, header, checked, ?_, hheader, hextends.checkHeader hchecked, rfl⟩
  exact (declares_iff_mem_items.1 (h.declares hdeclares)).1

theorem functions (hsignatures : graph.signatures types = .ok signatures)
    (hsignatures' : graph'.signatures types' = .ok signatures')
    (hfind : (functionTable signatures).find? key = some signature) :
    (functionTable signatures').find? key = some signature := by
  obtain ⟨hmem, htext⟩ := (hdeclared.functions_find?_iff hsignatures).1 hfind
  exact (hdeclared'.functions_find?_iff hsignatures').2
    ⟨h.mem_signatures hdeclared hdeclared' hsignatures hsignatures' hmem, htext⟩

end Graph.Within

end Smpl
