import Smpl.Proofs.Syntax.Induction
import Smpl.Typed.TypeExpr

namespace Smpl

variable {name : String} {what : Mismatch} {loc : Location} {u : Unit}

theorem Primitive.ofName?_eq_none_iff : Primitive.ofName? name = none ↔ name ∉ primitiveNames := by
  unfold Primitive.ofName?
  split <;> simp_all [primitiveNames]

@[simp] theorem mismatch_eq_ok_iff {α : Type} {a : α} : mismatch what loc = .ok a ↔ False := by
  simp [mismatch]

@[simp] theorem expectTypeArgs_eq_ok_iff {expected actual : Nat} :
    expectTypeArgs name expected actual loc = .ok u ↔ actual = expected := by
  unfold expectTypeArgs
  split <;> simp_all

/-- An expected type is met by itself alone: no type is converted to another. -/
@[simp] theorem expectType_eq_ok_iff {expected found : Ty} :
    expectType what expected found loc = .ok u ↔ expected = found := by
  unfold expectType
  split <;> simp_all

namespace TypeScope

variable {scope : TypeScope} {loc : Location} {path : Path} {args : List TypeExpr} {resolved : TypedTypeExpr}

theorem resolveList_eq_mapM (scope : TypeScope) (types : List TypeExpr) :
    scope.resolveList types = types.mapM scope.resolve :=
  eq_mapM_of_cons rfl fun _ _ => rfl

/-- Only a bare name is that of a primitive type or of a type parameter, and the primitive type comes first. -/
theorem simple?_eq_ok_some_iff {type : Ty} :
    scope.simple? path = .ok (some type) ↔
      path = .bare path.name ∧ (Primitive.ofName? path.name).map Ty.primitive = some type ∨
      path = .bare path.name ∧ Primitive.ofName? path.name = none ∧ scope.typeNames.lookup path.name = some type := by
  obtain ⟨modules, name, isMissing⟩ := path
  unfold simple?
  cases isMissing <;> cases modules <;> cases hname : Primitive.ofName? name <;>
    simp_all [Path.isQualified, Path.bare]

/-- A path is left to be looked up as that of an item if no such type has its name. -/
theorem simple?_eq_ok_none_iff :
    scope.simple? path = .ok none ↔ path.isMissing = false ∧
      (path.modules = [] → Primitive.ofName? path.name = none ∧ scope.typeNames.lookup path.name = none) := by
  obtain ⟨modules, name, isMissing⟩ := path
  unfold simple?
  cases isMissing <;> cases modules <;> simp [Path.isQualified]

theorem undefinedType_ne_ok {α : Type} {a : α} : scope.undefinedType path loc ≠ .ok a := by
  intro h
  unfold undefinedType at h
  split at h <;> simp [bind_eq_ok_iff] at h

/-- What a written type with a name is resolved to: a type that has the name by itself, a struct or an
    opaque type. -/
inductive ResolvesNamed (scope : TypeScope) (loc : Location) (path : Path) : List TypeExpr → TypedTypeExpr → Prop
  | simple {type : Ty} :
    scope.simple? path = .ok (some type) → ResolvesNamed scope loc path [] (.named loc path [] type)
  | struct {owner name : String} {loc' : Location} {fields : List (Member TypeExpr)} {declared : StructDecl} :
    scope.simple? path = .ok none →
    scope.graph.resolvePath scope.moduleName path (some loc) = .ok (some (owner, .struct loc' name fields)) →
    scope.types.structs.get ⟨owner, name⟩ = .ok declared →
    ResolvesNamed scope loc path [] (.named loc path [] (.struct declared.name))
  | opaqueType {owner name : String} {loc' : Location} {typeParams : List String} {declared : OpaqueInfo}
      {args : List TypeExpr} {resolved : List TypedTypeExpr} :
    scope.simple? path = .ok none →
    scope.graph.resolvePath scope.moduleName path (some loc) = .ok (some (owner, .opaqueType loc' name typeParams)) →
    scope.types.opaques.get ⟨owner, name⟩ = .ok declared → args.length = declared.typeParams.length →
    args.mapM scope.resolve = .ok resolved →
    ResolvesNamed scope loc path args (.named loc path resolved (.opaqueType ⟨owner, name⟩ (resolved.map (·.type))))

/-- Resolving a named type succeeds in these ways only. -/
theorem resolve_named_eq_ok_iff :
    scope.resolve (.named loc path args) = .ok resolved ↔ ResolvesNamed scope loc path args resolved := by
  constructor
  · intro h
    simp only [resolve, bind_eq_ok_iff] at h
    obtain ⟨simple, hsimple, h⟩ := h
    split at h
    · next type =>
      simp only [bind_eq_ok_iff, expectTypeArgs_eq_ok_iff, pure_eq_ok_iff] at h
      obtain ⟨_, hargs, rfl⟩ := h
      obtain rfl := List.length_eq_zero_iff.1 hargs
      exact .simple hsimple
    · simp only [bind_eq_ok_iff] at h
      obtain ⟨found, hfound, h⟩ := h
      split at h
      · exact absurd h undefinedType_ne_ok
      · simp only [bind_eq_ok_iff, expectTypeArgs_eq_ok_iff, pure_eq_ok_iff] at h
        obtain ⟨_, hargs, declared, hdeclared, rfl⟩ := h
        obtain rfl := List.length_eq_zero_iff.1 hargs
        exact .struct hsimple hfound hdeclared
      · simp only [bind_eq_ok_iff, expectTypeArgs_eq_ok_iff, pure_eq_ok_iff, resolveList_eq_mapM] at h
        obtain ⟨declared, hdeclared, _, hargs, resolved, hresolved, rfl⟩ := h
        exact .opaqueType hsimple hfound hdeclared hargs hresolved
      · simp at h
  · intro h
    cases h with
    | simple hsimple => simp [resolve, hsimple, expectTypeArgs]
    | struct hsimple hfound hdeclared => simp [resolve, hsimple, hfound, hdeclared, expectTypeArgs]
    | opaqueType hsimple hfound hdeclared hargs hresolved =>
      simp [resolve, hsimple, hfound, hdeclared, expectTypeArgs, hargs, resolveList_eq_mapM, hresolved]

theorem resolve_array_eq_ok_iff {element : TypeExpr} {length : Int} :
    scope.resolve (.array loc element length) = .ok resolved ↔
      ∃ part, scope.resolve element = .ok part ∧ resolved = .array loc part length (.array part.type length) := by
  simp only [resolve, bind_eq_ok_iff, pure_eq_ok_iff, @eq_comm _ _ resolved]

theorem resolve_function_eq_ok_iff {params : List TypeExpr} {result : Option TypeExpr} :
    scope.resolve (.function loc params result) = .ok resolved ↔
      ∃ parts part, params.mapM scope.resolve = .ok parts ∧ scope.resolveOption result = .ok part ∧
        resolved = .function loc parts part
          (.function (parts.map (·.type)) ((part.map (·.type)).getD .unit)) := by
  simp only [resolve, bind_eq_ok_iff, resolveList_eq_mapM, pure_eq_ok_iff]
  constructor
  · rintro ⟨parts, hparts, part, hpart, rfl⟩
    exact ⟨parts, part, hparts, hpart, rfl⟩
  · rintro ⟨parts, part, hparts, hpart, rfl⟩
    exact ⟨parts, hparts, part, hpart, rfl⟩

theorem resolveOption_some_eq_ok_iff {type : TypeExpr} {resolved : Option TypedTypeExpr} :
    scope.resolveOption (some type) = .ok resolved ↔ ∃ part, scope.resolve type = .ok part ∧ resolved = some part := by
  simp only [resolveOption, bind_eq_ok_iff, pure_eq_ok_iff, @eq_comm _ _ resolved]

end TypeScope

end Smpl
