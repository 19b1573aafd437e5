import Smpl.Proofs.Spelling.Body
import Smpl.Proofs.Typing.Table

namespace Smpl

open List

namespace TypeScope

variable {scope : TypeScope}

/-- The type parameters of a resolved type are among those that names stand for. -/
theorem params_of_resolve (type : TypeExpr) {resolved : TypedTypeExpr} (h : scope.resolve type = .ok resolved) :
    ∀ param ∈ resolved.type.params, ∃ entry ∈ scope.typeNames, param ∈ entry.2.params := by
  induction type using TypeExpr.induct generalizing resolved with
  | named loc path args hargs =>
    cases resolve_named_eq_ok_iff.1 h with
    | simple hsimple =>
      rcases simple?_eq_ok_some_iff.1 hsimple with ⟨_, hname⟩ | ⟨_, _, hname⟩
      · obtain ⟨primitive, _, rfl⟩ := Option.map_eq_some_iff.1 hname
        exact forall_mem_nil _
      · exact fun param hparam => ⟨_, mem_of_lookup hname, hparam⟩
    | struct => exact forall_mem_nil _
    | opaqueType _ _ _ _ hresolved =>
      exact Ty.forall_mem_paramsList.2 (forall_mem_map.2 (forall_mem_of_mapM hargs hresolved))
  | array loc element length helement =>
    obtain ⟨part, hpart, rfl⟩ := resolve_array_eq_ok_iff.1 h
    exact fun param hparam => helement hpart param hparam
  | function loc params result hparams hresult =>
    obtain ⟨parts, part, hparts, hpart, rfl⟩ := resolve_function_eq_ok_iff.1 h
    have hlist := Ty.forall_mem_paramsList.2 (forall_mem_map.2 (forall_mem_of_mapM hparams hparts))
    refine forall_mem_append.2 ⟨hlist, ?_⟩
    cases result with
    | none =>
      cases hpart
      exact forall_mem_nil _
    | some result =>
      obtain ⟨_, hresolved, rfl⟩ := resolveOption_some_eq_ok_iff.1 hpart
      exact hresult result rfl hresolved
  | unknown node => cases h

end TypeScope

/-- No type parameters stand in fields of structs, and only their own in signatures. -/
structure Registry.Closed (registry : Registry) : Prop where
  structs : ∀ {name info}, registry.structs.get name = .ok info →
    ∀ {field type}, info.fieldType? field = some type → type.params = []
  functions : ∀ {name signature}, registry.functions.get name = .ok signature → signature.Closed

/-- Substitution leaves closed tables as they are. -/
theorem Registry.Closed.fixes {registry : Registry} (h : registry.Closed) (images : TypeParam → Ty) :
    registry.Fixes images where
  field := fun hget htype => Ty.subst_eq_self (h.structs hget htype)
  function := fun hget => (h.functions hget).type_subst
  instantiate := fun hget => (h.functions hget).instantiate_map_subst

namespace Graph

variable {graph : Graph} {types : DeclaredTypes}

/-- Fields have no type parameters: structs are not generic. -/
theorem params_of_structInfo {struct : StructDecl} {info : StructInfo} (h : graph.structInfo types struct = .ok info)
    {field : String} {type : Ty} (htype : info.fieldType? field = some type) : type.params = [] := by
  obtain ⟨_, fields, hfields, rfl⟩ := structInfo_eq_ok_iff.1 h
  obtain ⟨resolved, hresolved, heq⟩ := mem_map.1 (mem_of_lookup htype)
  cases heq
  obtain ⟨member, _, part, hpart, rfl⟩ := TypeScope.exists_of_mem_members hfields hresolved
  refine eq_nil_iff_forall_not_mem.2 fun param hparam => ?_
  obtain ⟨_, hentry, _⟩ := TypeScope.params_of_resolve _ hpart param hparam
  cases hentry

/-- The type parameters in a signature are its own. -/
theorem closed_of_checkHeader {owner : String} {loc : Location} {isBuiltin : Bool} {header : Header TypeExpr}
    {checked : Header TypedTypeExpr} (h : graph.checkHeader types owner loc header = .ok checked) :
    (Signature.ofHeader owner loc isBuiltin checked).Closed := by
  obtain ⟨_, _, params, result, hparams, hresult, rfl⟩ := checkHeader_eq_ok_iff.1 h
  have hscope : ∀ {type : TypeExpr} {resolved : TypedTypeExpr},
      (graph.headerScope types owner header).resolve type = .ok resolved →
        ∀ param ∈ resolved.type.params, param ∈ header.typeParamsOf owner := by
    intro type resolved hresolved param hparam
    obtain ⟨entry, hentry, hmem⟩ := TypeScope.params_of_resolve type hresolved param hparam
    obtain ⟨name, hname, rfl⟩ := mem_map.1 hentry
    rw [mem_singleton.1 hmem]
    exact hname
  constructor
  · intro param hparam
    obtain ⟨resolved, hresolved, rfl⟩ := mem_map.1 hparam
    obtain ⟨member, _, part, hpart, rfl⟩ := TypeScope.exists_of_mem_members hparams hresolved
    exact hscope hpart
  · cases hwritten : header.result with
    | none =>
      rw [hwritten] at hresult
      cases hresult
      exact forall_mem_nil _
    | some type =>
      rw [hwritten] at hresult
      obtain ⟨part, hpart, rfl⟩ := TypeScope.resolveOption_some_eq_ok_iff.1 hresult
      exact hscope hpart

/-- The tables of a checked program are closed. -/
theorem closed_of_check {program : Program} (h : graph.check.outcome = .ok program) : program.registry.Closed := by
  obtain ⟨types, structs, signatures, _, hstructs, hsignatures, _, hregistry, _⟩ := check_eq_ok_iff.1 h
  rw [hregistry]
  constructor
  · intro name info hget field type htype
    rw [Table.get_eq_ok_iff, Table.find?_of_mapM hstructs] at hget
    obtain ⟨struct, _, hinfo⟩ := hget
    exact params_of_structInfo hinfo htype
  · intro name signature hget
    have hmem : signature ∈ signatures := by
      rcases Table.mem_foldl_put (Table.mem_of_find? (Table.get_eq_ok_iff.1 hget)) with hmem | hempty
      · exact hmem
      · cases hempty
    obtain ⟨owner, item, header, checked, _, _, hchecked, rfl⟩ := (mem_signatures_iff hsignatures).1 hmem
    exact closed_of_checkHeader hchecked

end Graph

end Smpl
