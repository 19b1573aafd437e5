import Smpl.Proofs.Traverse
import Smpl.Types.Signature

namespace Smpl

open List

/-- Induction over a type: the types inside it have the property already. -/
@[elab_as_elim] theorem Ty.induct {motive : Ty → Prop} (primitive : ∀ type, motive (.primitive type))
    (struct : ∀ name, motive (.struct name))
    (opaqueType : ∀ name args, (∀ type ∈ args, motive type) → motive (.opaqueType name args))
    (param : ∀ name, motive (.param name))
    (array : ∀ element length, motive element → motive (.array element length))
    (function : ∀ params result, (∀ type ∈ params, motive type) → motive result → motive (.function params result))
    (reference : ∀ target, motive target → motive (.reference target)) (type : Ty) : motive type :=
  @Ty.rec motive (fun types => ∀ type ∈ types, motive type)
    primitive struct opaqueType param array function reference
    (forall_mem_nil _) (fun _ _ hfirst hothers => forall_mem_cons.2 ⟨hfirst, hothers⟩) type

namespace Ty

theorem substList_eq_map (images : TypeParam → Ty) (types : List Ty) :
    substList images types = types.map (subst images) :=
  eq_map_of_cons rfl fun _ _ => rfl

mutual

/-- The type parameters in a type. -/
def params : Ty → List TypeParam
  | .primitive _ | .struct _ => []
  | .opaqueType _ args => paramsList args
  | .param name => [name]
  | .array element _ => element.params
  | .function types result => paramsList types ++ result.params
  | .reference target => target.params

def paramsList : List Ty → List TypeParam
  | [] => []
  | type :: types => type.params ++ paramsList types

end

theorem forall_mem_paramsList {p : TypeParam → Prop} {types : List Ty} :
    (∀ param ∈ paramsList types, p param) ↔ ∀ type ∈ types, ∀ param ∈ type.params, p param := by
  induction types with
  | nil => exact iff_of_true (forall_mem_nil _) (forall_mem_nil _)
  | cons type types ih => rw [paramsList, forall_mem_append, forall_mem_cons, ih]

variable {f g : TypeParam → Ty}

/-- A substitution matters only on the parameters of a type. -/
theorem subst_congr (type : Ty) (h : ∀ param ∈ type.params, f param = g param) : type.subst f = type.subst g := by
  induction type using Ty.induct with
  | primitive | struct => rfl
  | opaqueType name args hargs =>
    rw [subst, subst, substList_eq_map, substList_eq_map]
    exact congrArg _ (map_congr_left fun type htype => hargs type htype (forall_mem_paramsList.1 h type htype))
  | param name => exact h name mem_cons_self
  | array element length helement => rw [subst, subst, helement h]
  | function types result htypes hresult =>
    obtain ⟨hparams, hlast⟩ := forall_mem_append.1 h
    have hmap : types.map (subst f) = types.map (subst g) :=
      map_congr_left fun type htype => htypes type htype (forall_mem_paramsList.1 hparams type htype)
    rw [subst, subst, substList_eq_map, substList_eq_map, hmap, hresult hlast]
  | reference target htarget => rw [subst, subst, htarget h]

@[simp] theorem subst_param (type : Ty) : type.subst .param = type := by
  induction type using Ty.induct with
  | primitive | struct | param => rfl
  | opaqueType name args hargs => rw [subst, substList_eq_map, map_congr_left hargs, map_id']
  | array element length helement => rw [subst, helement]
  | function types result htypes hresult =>
    rw [subst, substList_eq_map, map_congr_left htypes, map_id', hresult]
  | reference target htarget => rw [subst, htarget]

theorem subst_eq_self {type : Ty} (h : type.params = []) : type.subst f = type := by
  have hsame : type.subst f = type.subst .param := subst_congr type (by simp [h])
  rw [hsame, subst_param]

/-- Substituting twice is substituting once, by the substituted images. -/
theorem subst_subst (type : Ty) : (type.subst f).subst g = type.subst fun param => (f param).subst g := by
  induction type using Ty.induct with
  | primitive | struct | param => rfl
  | opaqueType name args hargs =>
    simp only [subst, substList_eq_map, map_map]
    exact congrArg _ (map_congr_left hargs)
  | array element length helement => rw [subst, subst, helement, subst]
  | function types result htypes hresult =>
    simp only [subst, substList_eq_map, map_map, hresult]
    exact congrArg (Ty.function · _) (map_congr_left htypes)
  | reference target htarget => rw [subst, subst, htarget, subst]

theorem subst_ne_unit {type : Ty} (h : type ≠ .unit) (hf : ∀ param ∈ type.params, f param ≠ .unit) :
    type.subst f ≠ .unit := by
  cases type with
  | primitive primitive => exact h
  | param name => exact hf name mem_cons_self
  | struct | opaqueType | array | function | reference => nofun

end Ty

variable {params : List TypeParam} {types : List Ty} {param : TypeParam}

/-- Each of as many parameters as types has an image, which is one of the types. -/
theorem exists_lookup_zip (hlength : types.length = params.length) (hparam : param ∈ params) :
    ∃ type ∈ types, (params.zip types).reverse.lookup param = some type := by
  cases hlookup : (params.zip types).reverse.lookup param with
  | some image =>
    obtain ⟨before, after, hpairs, _⟩ := List.lookup_eq_some_iff.1 hlookup
    have hpair : (param, image) ∈ params.zip types := mem_reverse.1 (hpairs ▸ mem_append_cons_self)
    exact ⟨image, (of_mem_zip hpair).2, rfl⟩
  | none =>
    rw [← map_fst_zip (Nat.le_of_eq hlength.symm)] at hparam
    obtain ⟨pair, hpair, rfl⟩ := mem_map.1 hparam
    have hother := lookup_eq_none_iff.1 hlookup pair (mem_reverse.2 hpair)
    simp at hother

/-- The images that a list gives to its parameters, substituted, are those that the substituted list
    gives them. -/
theorem imagesOf_map_subst {s : TypeParam → Ty} (hlength : types.length = params.length) (hparam : param ∈ params) :
    imagesOf (params.zip (types.map (Ty.subst s))) param = (imagesOf (params.zip types) param).subst s := by
  have hzip : params.zip (types.map (Ty.subst s)) = (params.zip types).map fun pair => (pair.1, pair.2.subst s) := by
    rw [zip_map_right]
    rfl
  obtain ⟨image, _, hlookup⟩ := exists_lookup_zip hlength hparam
  rw [imagesOf, imagesOf, hzip, ← map_reverse, lookup_map_snd, hlookup]
  rfl

/-- Two lists of pairs as one: the images of the first list are substituted by the second, and win over its own. -/
def composed (first second : List (TypeParam × Ty)) : List (TypeParam × Ty) :=
  second ++ first.map fun pair => (pair.1, pair.2.subst (imagesOf second))

/-- A composed list gives each parameter what the two lists give it in a row. -/
theorem imagesOf_composed (first second : List (TypeParam × Ty)) (param : TypeParam) :
    imagesOf (composed first second) param = (imagesOf first param).subst (imagesOf second) := by
  rw [imagesOf, composed, reverse_append, ← map_reverse, lookup_append, lookup_map_snd, imagesOf]
  cases first.reverse.lookup param with
  | none => rfl
  | some image => rfl

theorem imagesOf_eq_param {pairs : List (TypeParam × Ty)} (h : param ∉ pairs.map Prod.fst) :
    imagesOf pairs param = .param param := by
  have hnone : pairs.reverse.lookup param = none := by
    refine lookup_eq_none_iff.2 fun pair hpair => bne_iff_ne.2 ?_
    rintro rfl
    exact h (mem_map_of_mem (mem_reverse.1 hpair))
  rw [imagesOf, hnone]
  rfl

namespace Signature

theorem instantiate_eq (signature : Signature) (types : List Ty) :
    signature.instantiate types =
      (signature.params.map fun param => param.2.subst (imagesOf (signature.typeParams.zip types)),
        signature.result.subst (imagesOf (signature.typeParams.zip types))) := by
  simp [instantiate, paramTypes, Ty.substList_eq_map, Function.comp_def]

/-- A signature that holds no type parameters but its own. -/
structure Closed (signature : Signature) : Prop where
  params : ∀ param ∈ signature.params, ∀ name ∈ param.2.params, name ∈ signature.typeParams
  result : ∀ name ∈ signature.result.params, name ∈ signature.typeParams

namespace Closed

variable {signature : Signature} (h : signature.Closed) {s : TypeParam → Ty}
include h

/-- Instantiation with substituted types is instantiation, substituted. -/
theorem instantiate_map_subst (hlength : types.length = signature.typeParams.length) :
    signature.instantiate (types.map (Ty.subst s)) =
      ((signature.instantiate types).1.map (Ty.subst s), (signature.instantiate types).2.subst s) := by
  have himages : ∀ {type : Ty}, (∀ name ∈ type.params, name ∈ signature.typeParams) →
      type.subst (imagesOf (signature.typeParams.zip (types.map (Ty.subst s)))) =
        (type.subst (imagesOf (signature.typeParams.zip types))).subst s := by
    intro type hnames
    rw [Ty.subst_subst]
    exact Ty.subst_congr type fun name hname => imagesOf_map_subst hlength (hnames name hname)
  rw [instantiate_eq, instantiate_eq, himages h.result, map_map]
  exact congrArg (·, _) (map_congr_left fun param hparam => himages (h.params param hparam))

/-- The type of a function that is not generic holds no type parameters. -/
theorem type_subst (hgeneric : signature.typeParams = []) : signature.type.subst s = signature.type := by
  have hnone : ∀ {type : Ty}, (∀ name ∈ type.params, name ∈ signature.typeParams) → type.subst s = type := by
    intro type hnames
    rw [hgeneric] at hnames
    exact Ty.subst_eq_self (eq_nil_iff_forall_not_mem.2 fun name hname => not_mem_nil (hnames name hname))
  rw [Signature.type, Ty.subst, hnone h.result, Ty.substList_eq_map, paramTypes, map_map]
  exact congrArg (Ty.function · _) (map_congr_left fun param hparam => hnone (h.params param hparam))

end Closed

end Signature

/-- Substitution replaces all parameters at once, so that two substitutions are one: parameters of the first go to their
    images there, substituted by the second, and the others go where the second takes them. Instantiation substitutes
    the type arguments for the parameters of a function, and its result is substituted by substituting in them, also
    where they hold those same parameters. -/
theorem subst_composes (first second : List (TypeParam × Ty)) :
    (∀ param, imagesOf (composed first second) param =
      if param ∈ first.map Prod.fst then (imagesOf first param).subst (imagesOf second) else imagesOf second param) ∧
    (∀ type : Ty, (type.subst (imagesOf first)).subst (imagesOf second) =
      type.subst (imagesOf (composed first second))) ∧
    ∀ (signature : Signature) (types : List Ty), signature.Closed → types.length = signature.typeParams.length →
      ((signature.instantiate types).1.map (Ty.subst (imagesOf second)),
          (signature.instantiate types).2.subst (imagesOf second)) =
        signature.instantiate (types.map (Ty.subst (imagesOf second))) := by
  refine ⟨fun param => ?_, fun type => ?_, fun signature types hclosed hlength => ?_⟩
  · split
    · exact imagesOf_composed first second param
    · next hother =>
      rw [imagesOf_composed, imagesOf_eq_param hother]
      rfl
  · rw [Ty.subst_subst]
    exact Ty.subst_congr type fun param _ => (imagesOf_composed first second param).symm
  · exact (hclosed.instantiate_map_subst hlength).symm

/-- A function that calls itself with its two type parameters exchanged, in a call where the first is an array of the
    second. -/
theorem subst_composes_exchanged :
    let t : TypeParam := ⟨"m::f", "T"⟩
    let u : TypeParam := ⟨"m::f", "U"⟩
    let signature : Signature :=
      ⟨⟨"m", "f"⟩, [t, u], [("x", .param t), ("g", .function [.param u] .bool)], .param u, false, default⟩
    let second := [(t, Ty.array (.param u) 2), (u, .int)]
    signature.Closed ∧ [Ty.param u, .param t].length = signature.typeParams.length ∧
      signature.instantiate [.int, .array (.param u) 2] =
        ([.int, .function [.array (.param u) 2] .bool], .array (.param u) 2) ∧
      ((signature.instantiate [.param u, .param t]).1.map (Ty.subst (imagesOf second)),
          (signature.instantiate [.param u, .param t]).2.subst (imagesOf second)) =
        signature.instantiate [.int, .array (.param u) 2] := by
  intro t u signature second
  have hclosed : signature.Closed := ⟨by decide, by decide⟩
  exact ⟨hclosed, rfl, rfl, (subst_composes [] second).2.2 signature [.param u, .param t] hclosed rfl⟩

end Smpl
