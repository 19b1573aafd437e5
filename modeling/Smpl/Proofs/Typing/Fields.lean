import Smpl.Proofs.Checker.Lookup
import Smpl.Proofs.Typing.Registry

namespace Smpl

/-- The types that a scope gives to its names. -/
def Scope.vars (scope : Scope) : Vars :=
  fun name => (scope.lookup name).map (·.type)

def Context.site (ctx : Context) : Site :=
  ⟨ctx.graph, ctx.moduleName, ctx.typeNames⟩

/-- A context inside a module of a program whose declarations are right. -/
structure Context.Knows (ctx : Context) : Prop where
  registry : ctx.registry.Describes
  viewer : ∃ module_, ctx.graph.find? ctx.moduleName = some module_

theorem TypeScope.Knows.denotes_unique {scope : TypeScope} (h : scope.Knows) {type : TypeExpr} {denoted denoted' : Ty}
    (hdenotes : Denotes scope.site type denoted) (hdenotes' : Denotes scope.site type denoted') :
    denoted = denoted' := by
  obtain ⟨resolved, hresolved, rfl⟩ := (h.agrees type denoted).2 hdenotes
  obtain ⟨resolved', hresolved', rfl⟩ := (h.agrees type denoted').2 hdenotes'
  rw [Except.ok.inj (hresolved.symm.trans hresolved')]

/-- Among members with names of their own, looking up a name finds the type of its member. -/
theorem DenotesMembers.lookup_eq_some_iff {scope : TypeScope} (hknows : scope.Knows)
    {members : List (Member TypeExpr)} {types : List (String × Ty)} (h : DenotesMembers scope.site members types)
    (hnames : (members.map (·.name)).Nodup) {name : String} {type : Ty} :
    types.lookup name = some type ↔
      ∃ member ∈ members, member.name = name ∧ Denotes scope.site member.type type := by
  induction h with
  | nil => simp
  | @cons member denoted members types hmember hmembers ih =>
    obtain ⟨name', denoted⟩ := denoted
    obtain ⟨rfl, hdenotes⟩ := hmember
    obtain ⟨hfirst, hnames⟩ := List.nodup_cons.1 hnames
    rw [lookup_cons, List.exists_mem_cons_iff]
    split
    · next hname =>
      subst hname
      rw [Option.some.injEq]
      constructor
      · rintro rfl
        exact .inl ⟨rfl, hdenotes⟩
      · rintro (⟨_, hdenotes'⟩ | ⟨other, hother, hname, _⟩)
        · exact hknows.denotes_unique hdenotes hdenotes'
        · exact absurd (List.mem_map.2 ⟨other, hother, hname⟩) hfirst
    · next hname =>
      rw [ih hnames]
      constructor
      · exact .inr
      · rintro (⟨hname', _⟩ | hother)
        · exact absurd hname'.symm hname
        · exact hother

namespace Registry.Describes

variable {registry : Registry} (h : registry.Describes) {owner : String} {item : Item} {header : Header TypeExpr}
include h

theorem knows (hdeclares : registry.graph.Declares owner item) (typeNames : List (String × Ty)) :
    (TypeScope.mk registry.graph registry.types owner typeNames).Knows where
  graph := h.graph
  types := h.types
  viewer := hdeclares.find? h.graph

theorem signs_unique (hdeclares : registry.graph.Declares owner item) {params params' : List (String × Ty)}
    {result result' : Ty} (hsigns : registry.graph.Signs owner header params result)
    (hsigns' : registry.graph.Signs owner header params' result') : params = params' ∧ result = result' := by
  have hknows := h.knows hdeclares (typeNamesOf (header.typeParamsOf owner))
  obtain ⟨resolved, hresolved, rfl⟩ := hknows.mapM_member_iff.2 hsigns.params
  obtain ⟨resolved', hresolved', rfl⟩ := hknows.mapM_member_iff.2 hsigns'.params
  obtain ⟨part, hpart, rfl⟩ := hknows.resolveOption_iff_denotes.2 hsigns.result
  obtain ⟨part', hpart', rfl⟩ := hknows.resolveOption_iff_denotes.2 hsigns'.result
  rw [Except.ok.inj (hresolved.symm.trans hresolved'), Except.ok.inj (hpart.symm.trans hpart')]
  exact ⟨rfl, rfl⟩

/-- The signature that is found for a function is the one that its header gives it. -/
theorem functions_get_iff (hdeclares : registry.graph.Declares owner item) (hheader : item.header? = some header)
    {signature : Signature} (hget : registry.functions.get ⟨owner, header.name⟩ = .ok signature) :
    signature.typeParams = header.typeParamsOf owner ∧
      ∀ {params result}, registry.graph.Signs owner header params result ↔
        params = signature.params ∧ result = signature.result := by
  obtain ⟨found, hfound, htypeParams, hsigns⟩ := h.functions hdeclares hheader
  obtain rfl : found = signature := Except.ok.inj (hfound.symm.trans hget)
  refine ⟨htypeParams, fun {params result} => ⟨fun hsigns' => h.signs_unique hdeclares hsigns' hsigns, ?_⟩⟩
  rintro ⟨rfl, rfl⟩
  exact hsigns

theorem fieldType?_eq_some_iff {struct : ItemName} {info : StructInfo}
    (hget : registry.structs.get struct = .ok info) {field : String} {type : Ty} :
    info.fieldType? field = some type ↔ registry.graph.HasField struct field type := by
  obtain ⟨loc, fields, hdeclares⟩ := h.declared hget
  obtain ⟨info', hget', _, hnames, hfields⟩ := h.structs hdeclares
  obtain rfl : info' = info := Except.ok.inj (hget'.symm.trans hget)
  have hknows := h.knows hdeclares []
  rw [StructInfo.fieldType?, hfields.lookup_eq_some_iff hknows hnames]
  constructor
  · rintro ⟨member, hmember, hname, hdenotes⟩
    exact ⟨loc, fields, hdeclares, member, hmember, hname, hdenotes⟩
  · rintro ⟨loc', fields', hdeclares', member, hmember, hname, hdenotes⟩
    cases h.graph.declares_unique hdeclares hdeclares' rfl
    exact ⟨member, hmember, hname, hdenotes⟩

end Registry.Describes

namespace Context.Knows

variable {ctx : Context} (h : ctx.Knows)
include h

theorem typeScope : ctx.typeScope.Knows where
  graph := h.registry.graph
  types := h.registry.types
  viewer := h.viewer

/-- The checker gives a field the type that it has by the rules. -/
theorem fieldType_eq_ok_iff {loc : Location} {base type : Ty} {field : String} :
    ctx.fieldType loc base field = .ok type ↔
      ∃ struct, base = .struct struct ∧ ctx.graph.HasField struct field type := by
  rw [Context.fieldType_eq_ok_iff]
  constructor
  · rintro ⟨struct, info, rfl, hget, htype⟩
    exact ⟨struct, rfl, (h.registry.fieldType?_eq_some_iff hget).1 htype⟩
  · rintro ⟨struct, rfl, loc', fields, hdeclares, hmember⟩
    obtain ⟨info, hget, _⟩ := h.registry.structs hdeclares
    exact ⟨struct, info, rfl, hget, (h.registry.fieldType?_eq_some_iff hget).2 ⟨loc', fields, hdeclares, hmember⟩⟩

/-- Following a chain of fields finds exactly the type that it reaches. -/
theorem chainType_eq_ok_iff {loc : Location} {base type : Ty} {fields : List String} :
    ctx.chainType loc base fields = .ok type ↔ ctx.graph.Reaches base fields type := by
  induction fields generalizing base with
  | nil =>
    rw [Context.chainType, List.foldlM_nil, pure_eq_ok_iff]
    constructor
    · rintro rfl
      exact .nil
    · intro hreaches
      cases hreaches
      rfl
  | cons field fields ih =>
    simp only [Context.chainType_cons_eq_ok_iff, h.fieldType_eq_ok_iff, ih]
    constructor
    · rintro ⟨next, ⟨struct, rfl, hfield⟩, hreaches⟩
      exact .cons hfield hreaches
    · intro hreaches
      cases hreaches with
      | cons hfield hreaches => exact ⟨_, ⟨_, rfl, hfield⟩, hreaches⟩

end Context.Knows

end Smpl
