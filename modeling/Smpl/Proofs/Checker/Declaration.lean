import Smpl.Proofs.Checker.TypeExpr
import Smpl.Proofs.Typing.Rules

namespace Smpl

open List

variable {names seen : List String}

/-- Names that differ and of which none was seen before. -/
def FreshNames (seen names : List String) : Prop :=
  names.Nodup ∧ ∀ name ∈ names, name ∉ seen

theorem freshNames_nil_iff : FreshNames [] names ↔ names.Nodup := by
  simp [FreshNames]

theorem freshNames_cons_iff {name : String} :
    FreshNames seen (name :: names) ↔ name ∉ seen ∧ FreshNames (name :: seen) names := by
  rw [FreshNames, FreshNames, nodup_cons, forall_mem_cons]
  simp only [mem_cons, not_or]
  constructor
  · rintro ⟨⟨hname, hnodup⟩, hseen, hnames⟩
    exact ⟨hseen, hnodup, fun n hn => ⟨fun heq => hname (heq ▸ hn), hnames n hn⟩⟩
  · rintro ⟨hseen, hnodup, hnames⟩
    exact ⟨⟨fun hmem => (hnames name hmem).1 rfl, hnodup⟩, hseen, fun n hn => (hnames n hn).2⟩

/-- Type parameters are right exactly if they differ and none has the name of a primitive type. -/
theorem checkTypeParams_eq_ok_iff {loc : Location} {u : Unit} :
    checkTypeParams loc seen names = .ok u ↔ FreshNames seen names ∧ ∀ name ∈ names, Primitive.ofName? name = none := by
  induction names generalizing seen with
  | nil => simp [checkTypeParams, FreshNames]
  | cons name names ih =>
    rw [freshNames_cons_iff, forall_mem_cons, Primitive.ofName?_eq_none_iff, checkTypeParams]
    by_cases hprimitive : name ∈ primitiveNames
    · simp [hprimitive]
    · by_cases hseen : name ∈ seen
      · simp [hprimitive, hseen]
      · simp [hprimitive, hseen, ih]

namespace TypeScope

variable {scope : TypeScope} {resolved : List (Member TypedTypeExpr)}

/-- Resolves the type of a field or parameter. -/
def member (scope : TypeScope) (member : Member TypeExpr) : Except Failure (Member TypedTypeExpr) := do
  let type ← scope.resolve member.type
  return { member with type }

theorem member_eq_ok_iff {member : Member TypeExpr} {resolved : Member TypedTypeExpr} :
    scope.member member = .ok resolved ↔
      ∃ type, scope.resolve member.type = .ok type ∧ resolved = { member with type } := by
  simp only [TypeScope.member, bind_eq_ok_iff, pure_eq_ok_iff, @eq_comm _ _ resolved]

/-- Each member of resolved ones was written. -/
theorem exists_of_mem_members {members : List (Member TypeExpr)} {resolved : List (Member TypedTypeExpr)}
    (h : members.mapM scope.member = .ok resolved) {member : Member TypedTypeExpr} (hmember : member ∈ resolved) :
    ∃ written ∈ members, ∃ type, scope.resolve written.type = .ok type ∧ member = { written with type } := by
  obtain ⟨written, hwritten, hresolved⟩ := (mem_of_mapM_eq_ok h).1 hmember
  exact ⟨written, hwritten, member_eq_ok_iff.1 hresolved⟩

/-- Fields are resolved exactly if their names are new and differ and their types can be resolved. -/
theorem fields_eq_ok_iff {struct : String} {fields : List (Member TypeExpr)} :
    scope.fields struct seen fields = .ok resolved ↔
      FreshNames seen (fields.map (·.name)) ∧ fields.mapM scope.member = .ok resolved := by
  induction fields generalizing seen resolved with
  | nil => simp [fields, FreshNames]
  | cons field fields ih =>
    rw [map_cons, freshNames_cons_iff, mapM_cons, TypeScope.fields]
    by_cases hseen : field.name ∈ seen
    · simp [hseen, bind_eq_ok_iff]
    · simp only [contains_eq_mem, hseen, decide_false, Bool.false_eq_true, if_false, not_false_eq_true, true_and,
        member, bind_eq_ok_iff, ih, pure_eq_ok_iff]
      constructor
      · rintro ⟨type, htype, others, ⟨hnames, hothers⟩, rfl⟩
        exact ⟨hnames, _, ⟨type, htype, rfl⟩, others, hothers, rfl⟩
      · rintro ⟨hnames, _, ⟨type, htype, rfl⟩, others, hothers, rfl⟩
        exact ⟨type, htype, others, ⟨hnames, hothers⟩, rfl⟩

/-- Parameters are resolved exactly if their names are new and differ and their types can be
    resolved. -/
theorem params_eq_ok_iff {seen params : List (Member TypeExpr)} :
    scope.params seen params = .ok resolved ↔
      FreshNames (seen.map (·.name)) (params.map (·.name)) ∧ params.mapM scope.member = .ok resolved := by
  induction params generalizing seen resolved with
  | nil => simp [params, FreshNames]
  | cons param params ih =>
    rw [map_cons, freshNames_cons_iff, mapM_cons, TypeScope.params]
    cases hfind : seen.find? fun other => decide (other.name = param.name) with
    | some first =>
      have hseen : param.name ∈ seen.map (·.name) := by
        have hname : first.name = param.name := by simpa using find?_some hfind
        exact mem_map.2 ⟨first, mem_of_find?_eq_some hfind, hname⟩
      simp [hseen, bind_eq_ok_iff]
    | none =>
      have hseen : param.name ∉ seen.map (·.name) := by
        simpa [find?_eq_none] using hfind
      simp only [hseen, not_false_eq_true, true_and, member, bind_eq_ok_iff, ih, pure_eq_ok_iff,
        map_cons]
      constructor
      · rintro ⟨type, htype, others, ⟨hnames, hothers⟩, rfl⟩
        exact ⟨hnames, _, ⟨type, htype, rfl⟩, others, hothers, rfl⟩
      · rintro ⟨hnames, _, ⟨type, htype, rfl⟩, others, hothers, rfl⟩
        exact ⟨type, htype, others, ⟨hnames, hothers⟩, rfl⟩

end TypeScope

namespace Graph

variable {graph : Graph} {types : DeclaredTypes} {owner : String} {loc : Location} {header : Header TypeExpr}
  {checked : Header TypedTypeExpr}

/-- The scope in which the types of a header are written. -/
def headerScope {T : Type} (graph : Graph) (types : DeclaredTypes) (owner : String) (header : Header T) : TypeScope :=
  ⟨graph, types, owner, typeNamesOf (header.typeParamsOf owner)⟩

/-- A header is right exactly if its names differ and its types can be resolved among its own type parameters. -/
theorem checkHeader_eq_ok_iff :
    graph.checkHeader types owner loc header = .ok checked ↔
      DistinctTypeNames header.typeParams ∧ (header.params.map (·.name)).Nodup ∧
        ∃ params result, header.params.mapM (graph.headerScope types owner header).member = .ok params ∧
          (graph.headerScope types owner header).resolveOption header.result = .ok result ∧
          checked = { header with params, result } := by
  simp only [checkHeader, bind_eq_ok_iff, checkTypeParams_eq_ok_iff, TypeScope.params_eq_ok_iff, map_nil,
    freshNames_nil_iff, pure_eq_ok_iff]
  constructor
  · rintro ⟨_, ⟨htypes, hprimitive⟩, params, ⟨hnames, hparams⟩, result, hresult, rfl⟩
    exact ⟨⟨htypes, hprimitive⟩, hnames, params, result, hparams, hresult, rfl⟩
  · rintro ⟨⟨htypes, hprimitive⟩, hnames, params, result, hparams, hresult, rfl⟩
    exact ⟨(), ⟨htypes, hprimitive⟩, params, ⟨hnames, hparams⟩, result, hresult, rfl⟩

theorem names_of_checkHeader (h : graph.checkHeader types owner loc header = .ok checked) :
    checked.name = header.name ∧ checked.typeParams = header.typeParams := by
  obtain ⟨_, _, params, result, _, _, rfl⟩ := checkHeader_eq_ok_iff.1 h
  exact ⟨rfl, rfl⟩

/-- A struct is recorded exactly if its field names differ and their types can be resolved. -/
theorem structInfo_eq_ok_iff {struct : StructDecl} {info : StructInfo} :
    graph.structInfo types struct = .ok info ↔
      (struct.fields.map (·.name)).Nodup ∧
        ∃ fields, struct.fields.mapM (TypeScope.mk graph types struct.name.moduleName []).member = .ok fields ∧
          info = ⟨struct.name, fields.map fun field => (field.name, field.type.type), struct.loc⟩ := by
  simp only [structInfo, bind_eq_ok_iff, TypeScope.fields_eq_ok_iff, freshNames_nil_iff, pure_eq_ok_iff]
  constructor
  · rintro ⟨fields, ⟨hnames, hfields⟩, rfl⟩
    exact ⟨hnames, fields, hfields, rfl⟩
  · rintro ⟨hnames, fields, hfields, rfl⟩
    exact ⟨fields, ⟨hnames, hfields⟩, rfl⟩

end Graph

def Item.isBuiltin : Item → Bool
  | .builtin _ _ => true
  | _ => false

namespace Graph

variable {graph : Graph} {types : DeclaredTypes} {signatures : List Signature}

/-- The signature of a function, whose header must be right. Other items have none. -/
theorem signature?_eq_ok_iff {owner : String} {item : Item} :
    graph.signature? types (owner, item) = .ok signatures ↔
      (item.header? = none ∧ signatures = []) ∨
        ∃ header checked, item.header? = some header ∧ graph.checkHeader types owner item.loc header = .ok checked ∧
          signatures = [Signature.ofHeader owner item.loc item.isBuiltin checked] := by
  cases item with
  | function loc header body | builtin loc header =>
    simp only [signature?, Item.header?, Item.loc, Item.isBuiltin, bind_eq_ok_iff, pure_eq_ok_iff,
      reduceCtorEq, false_and, false_or, Option.some.injEq]
    constructor
    · rintro ⟨checked, hchecked, rfl⟩
      exact ⟨header, checked, rfl, hchecked, rfl⟩
    · rintro ⟨_, checked, rfl, hchecked, rfl⟩
      exact ⟨checked, hchecked, rfl⟩
  | _ => simp [signature?, Item.header?, @eq_comm _ _ signatures]

theorem signatures_eq_ok_iff :
    graph.signatures types = .ok signatures ↔
      ∃ lists, graph.items.mapM (graph.signature? types) = .ok lists ∧ signatures = lists.flatten := by
  unfold Graph.signatures
  cases graph.items.mapM (graph.signature? types) <;> simp [Except.map, eq_comm]

/-- Functions have signatures exactly if every header is right. -/
theorem exists_signatures_iff :
    (∃ signatures, graph.signatures types = .ok signatures) ↔
      ∀ owner item header, (owner, item) ∈ graph.items → item.header? = some header →
        ∃ checked, graph.checkHeader types owner item.loc header = .ok checked := by
  simp only [signatures_eq_ok_iff]
  constructor
  · rintro ⟨_, lists, hlists, rfl⟩ owner item header hitem hheader
    obtain ⟨signatures, hsignatures⟩ := exists_mapM_iff.1 ⟨lists, hlists⟩ (owner, item) hitem
    rcases signature?_eq_ok_iff.1 hsignatures with ⟨hnone, _⟩ | ⟨header', checked, hheader', hchecked, _⟩
    · rw [hnone] at hheader
      cases hheader
    · rw [hheader, Option.some.injEq] at hheader'
      exact ⟨checked, hheader' ▸ hchecked⟩
  · intro h
    obtain ⟨lists, hlists⟩ : ∃ lists, graph.items.mapM (graph.signature? types) = .ok lists := by
      refine exists_mapM_iff.2 ?_
      rintro ⟨owner, item⟩ hitem
      cases hheader : item.header? with
      | none => exact ⟨[], signature?_eq_ok_iff.2 (.inl ⟨hheader, rfl⟩)⟩
      | some header =>
        obtain ⟨checked, hchecked⟩ := h owner item header hitem hheader
        exact ⟨_, signature?_eq_ok_iff.2 (.inr ⟨header, checked, hheader, hchecked, rfl⟩)⟩
    exact ⟨_, lists, hlists, rfl⟩

/-- The signatures of a program are those of its functions. -/
theorem mem_signatures_iff (h : graph.signatures types = .ok signatures) {signature : Signature} :
    signature ∈ signatures ↔
      ∃ owner item header checked, (owner, item) ∈ graph.items ∧ item.header? = some header ∧
        graph.checkHeader types owner item.loc header = .ok checked ∧
        signature = Signature.ofHeader owner item.loc item.isBuiltin checked := by
  obtain ⟨lists, hlists, rfl⟩ := signatures_eq_ok_iff.1 h
  simp only [mem_flatten, mem_of_mapM_eq_ok hlists]
  constructor
  · rintro ⟨list, ⟨⟨owner, item⟩, hitem, hlist⟩, hsignature⟩
    rcases signature?_eq_ok_iff.1 hlist with ⟨_, rfl⟩ | ⟨header, checked, hheader, hchecked, rfl⟩
    · cases hsignature
    · exact ⟨owner, item, header, checked, hitem, hheader, hchecked, mem_singleton.1 hsignature⟩
  · rintro ⟨owner, item, header, checked, hitem, hheader, hchecked, rfl⟩
    exact ⟨_, ⟨(owner, item), hitem, signature?_eq_ok_iff.2 (.inr ⟨header, checked, hheader, hchecked, rfl⟩)⟩,
      mem_singleton_self _⟩

end Graph

end Smpl
