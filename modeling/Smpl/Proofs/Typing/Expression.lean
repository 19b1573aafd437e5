import Smpl.Proofs.Generic.Subst
import Smpl.Proofs.Typing.Operator

namespace Smpl

open List

namespace Context

variable {scope : Scope} {path : Path}

theorem mapM_expr_iff {ctx : Context} {args : List Expr} (hargs : ∀ e ∈ args, ctx.Agrees scope e) {types : List Ty} :
    (∃ checked, args.mapM (ctx.expr scope) = .ok checked ∧ checked.map (·.type) = types) ↔
      Forall₂ (HasType ctx.site scope.vars) args types := by
  rw [exists_mapM_map_iff, forall₂_congr_of_mem hargs]

theorem vars_eq_some_iff {name : String} {type : Ty} :
    scope.vars name = some type ↔ ∃ symbol, scope.lookup name = some symbol ∧ symbol.type = type := by
  simp [Scope.vars]

theorem misses_iff (hpath : path.isMissing = false) : local? scope path = .ok none ↔ scope.vars.Misses path := by
  simp [local?_eq_ok_none_iff, Vars.Misses, Scope.vars, hpath]

theorem isMissing_of_local? (h : local? scope path = .ok none) : path.isMissing = false :=
  (local?_eq_ok_none_iff.1 h).1

namespace Knows

variable {ctx : Context} {scope : Scope} {loc : Location} {path : Path} (h : ctx.Knows)
include h

theorem resolvePath_eq_ok_iff {owner : String} {item : Item} (hpath : path.isMissing = false) :
    ctx.graph.resolvePath ctx.moduleName path (some loc) = .ok (some (owner, item)) ↔
      ctx.graph.Means ctx.moduleName path owner item :=
  h.typeScope.resolvePath_eq_ok_iff hpath

theorem binding_agrees : ctx.Agrees scope (.binding loc path) := by
  intro type
  simp only [Context.expr, bind_eq_ok_iff, value_eq_ok_iff, pure_eq_ok_iff]
  constructor
  · rintro ⟨_, ⟨referent, hvalue, rfl⟩, rfl⟩
    cases hvalue with
    | binding hlocal =>
      obtain ⟨hpath, hlookup⟩ := local?_eq_ok_some_iff.1 hlocal
      rw [hpath]
      exact .bound (vars_eq_some_iff.2 ⟨_, hlookup, rfl⟩)
    | function hlocal hitem hheader hget hgeneric =>
      have hpath := isMissing_of_local? hlocal
      have hmeans := (h.resolvePath_eq_ok_iff hpath).1 hitem
      obtain ⟨htypeParams, hsigns⟩ := h.registry.functions_get_iff hmeans.declares hheader hget
      rw [hgeneric, Header.typeParamsOf, nil_eq, map_eq_nil_iff] at htypeParams
      exact .function ((misses_iff hpath).1 hlocal) hmeans hheader htypeParams (hsigns.2 ⟨rfl, rfl⟩)
  · intro htype
    cases htype with
    | bound hname =>
      obtain ⟨symbol, hlookup, rfl⟩ := vars_eq_some_iff.1 hname
      exact ⟨_, ⟨.binding symbol, .binding (local?_eq_ok_some_iff.2 ⟨rfl, hlookup⟩), rfl⟩, rfl⟩
    | function hmisses hmeans hheader hgeneric hsigns =>
      have hpath := hmeans.isMissing
      obtain ⟨signature, hget, htypeParams, _⟩ := h.registry.functions hmeans.declares hheader
      obtain ⟨rfl, rfl⟩ := (h.registry.functions_get_iff hmeans.declares hheader hget).2.1 hsigns
      rw [Header.typeParamsOf, hgeneric, map_nil] at htypeParams
      exact ⟨_, ⟨.function signature, .function ((misses_iff hpath).2 hmisses)
        ((h.resolvePath_eq_ok_iff hpath).2 hmeans) hheader hget htypeParams, rfl⟩, rfl⟩

theorem field_agrees {root : String} {fields : List String} : ctx.Agrees scope (.field loc root fields) := by
  intro type
  simp only [Context.expr, bind_eq_ok_iff, binding_eq_ok_iff, h.chainType_eq_ok_iff, pure_eq_ok_iff]
  constructor
  · rintro ⟨_, ⟨symbol, hlookup, _, hreaches, rfl⟩, rfl⟩
    exact .field (vars_eq_some_iff.2 ⟨symbol, hlookup, rfl⟩) hreaches
  · intro htype
    cases htype with
    | field hroot hreaches =>
      obtain ⟨symbol, hlookup, rfl⟩ := vars_eq_some_iff.1 hroot
      exact ⟨_, ⟨symbol, hlookup, _, hreaches, rfl⟩, rfl⟩

/-- A call is typed as the rules say if its arguments are. -/
theorem call_agrees {typeArgs : List TypeExpr} {args : List Expr} (hargs : ∀ e ∈ args, ctx.Agrees scope e) :
    ctx.Agrees scope (.call loc path typeArgs args) := by
  intro type
  simp only [expr_call_eq_ok_iff]
  constructor
  · rintro ⟨_, ⟨callee, outs, hcallee, houts, htypes, rfl⟩, rfl⟩
    have hforall := (mapM_expr_iff hargs).1 ⟨outs, houts, htypes⟩
    cases hcallee with
    | binding hlocal htype =>
      obtain ⟨hpath, hlookup⟩ := local?_eq_ok_some_iff.1 hlocal
      rw [hpath]
      exact .callBound (vars_eq_some_iff.2 ⟨_, hlookup, htype⟩) hforall
    | @function owner item header signature _ resolved hlocal hitem hheader hget hlength hresolved =>
      have hpath := isMissing_of_local? hlocal
      have hmeans := (h.resolvePath_eq_ok_iff hpath).1 hitem
      obtain ⟨htypeParams, hsigns⟩ := h.registry.functions_get_iff hmeans.declares hheader hget
      have hdenotes := (TypeScope.mapM_resolve_iff fun type _ => h.typeScope.agrees type).1 ⟨resolved, hresolved, rfl⟩
      rw [htypeParams, Header.typeParamsOf, length_map] at hlength
      rw [Signature.instantiate_eq, htypeParams] at hforall
      rw [Signature.instantiate_eq, htypeParams]
      exact .callFunction ((misses_iff hpath).1 hlocal) hmeans hheader hlength hdenotes (hsigns.2 ⟨rfl, rfl⟩) hforall
  · intro htype
    cases htype with
    | callBound hname hforall =>
      obtain ⟨symbol, hlookup, htype⟩ := vars_eq_some_iff.1 hname
      obtain ⟨outs, houts, htypes⟩ := (mapM_expr_iff hargs).2 hforall
      exact ⟨_, ⟨_, outs, .binding (local?_eq_ok_some_iff.2 ⟨rfl, hlookup⟩) htype, houts, htypes, rfl⟩, rfl⟩
    | callFunction hmisses hmeans hheader hlength hdenotes hsigns hforall =>
      have hpath := hmeans.isMissing
      obtain ⟨signature, hget, htypeParams, _⟩ := h.registry.functions hmeans.declares hheader
      obtain ⟨rfl, rfl⟩ := (h.registry.functions_get_iff hmeans.declares hheader hget).2.1 hsigns
      obtain ⟨resolved, hresolved, rfl⟩ :=
        (TypeScope.mapM_resolve_iff fun type _ => h.typeScope.agrees type).2 hdenotes
      obtain ⟨outs, houts, htypes⟩ := (mapM_expr_iff hargs).2 hforall
      rw [← htypeParams] at htypes
      have hlength' : typeArgs.length = signature.typeParams.length := by
        rw [hlength, htypeParams, Header.typeParamsOf, length_map]
      refine ⟨_, ⟨_, outs, .function ((misses_iff hpath).2 hmisses) ((h.resolvePath_eq_ok_iff hpath).2 hmeans) hheader
        hget hlength' hresolved, houts, ?_, rfl⟩, ?_⟩
      · rw [htypes, Signature.instantiate_eq]
      · simp only [TypedExpr.type, Signature.instantiate_eq, htypeParams]

/-- A struct literal is typed as the rules say if its values are. -/
theorem init_agrees {fields : List (FieldInit Expr)} (hfields : ∀ field ∈ fields, ctx.Agrees scope field.value) :
    ctx.Agrees scope (.init loc path fields) := by
  intro type
  simp only [expr_init_eq_ok_iff, struct_eq_ok_iff]
  constructor
  · rintro ⟨_, ⟨info, outs, ⟨hsimple, owner, loc', name, members, hfound, hget⟩, hnodup, houts, hall, rfl⟩, rfl⟩
    obtain ⟨hpath, hitem⟩ := TypeScope.simple?_eq_ok_none_iff.1 hsimple
    have hmeans := (h.resolvePath_eq_ok_iff hpath).1 hfound
    obtain ⟨info', hget', hname, hmembers, hdenotes⟩ := h.registry.structs hmeans.declares
    obtain rfl : info' = info := Except.ok.inj (hget'.symm.trans hget)
    have hfieldNames : info'.fieldNames = members.map (·.name) := hdenotes.names
    have hchecked : ∀ field ∈ fields, ∃ out, ctx.ChecksInit scope info' field out := by
      intro field hfield
      obtain ⟨out, _, hout⟩ := exists_of_forall₂_of_mem houts hfield
      exact ⟨out, hout⟩
    have hperm : (fields.map (·.name)).Perm (members.map (·.name)) := by
      refine (perm_ext_iff_of_nodup hnodup hmembers).2 fun fieldName => ⟨fun hmem => ?_, fun hmem => ?_⟩
      · obtain ⟨field, hfield, rfl⟩ := mem_map.1 hmem
        obtain ⟨out, hout⟩ := hchecked field hfield
        rw [← hfieldNames]
        exact mem_map.2 ⟨_, mem_of_lookup hout.type, rfl⟩
      · exact hall fieldName (hfieldNames ▸ hmem)
    obtain ⟨typeOf, htypeOf⟩ : ∃ typeOf : String → Ty, ∀ field ∈ fields, ∃ out,
        ctx.ChecksInit scope info' field out ∧ out.value.type = typeOf field.name := by
      refine ⟨fun fieldName => (info'.fieldType? fieldName).getD .unit, fun field hfield => ?_⟩
      obtain ⟨out, hout⟩ := hchecked field hfield
      exact ⟨out, hout, by simp only [hout.type, Option.getD_some]⟩
    rw [TypedExpr.type, hname]
    have hhas : ∀ field ∈ fields, ctx.site.graph.HasField ⟨owner, name⟩ field.name (typeOf field.name) := by
      intro field hfield
      obtain ⟨out, hout, htype⟩ := htypeOf field hfield
      exact (h.registry.fieldType?_eq_some_iff hget).1 (htype ▸ hout.type)
    have htypes : ∀ field ∈ fields, HasType ctx.site scope.vars field.value (typeOf field.name) := by
      intro field hfield
      obtain ⟨out, hout, htype⟩ := htypeOf field hfield
      exact (hfields field hfield _).1 ⟨out.value, hout.value, htype⟩
    exact .init hitem hmeans hperm hhas htypes
  · intro htype
    cases htype with
    | @init _ loc' _ _ owner name members types hitem hmeans hperm hhas htypes =>
      have hpath := hmeans.isMissing
      obtain ⟨info, hget, hname, hmembers, hdenotes⟩ := h.registry.structs hmeans.declares
      have hfieldNames : info.fieldNames = members.map (·.name) := hdenotes.names
      have hchecked : ∀ field ∈ fields, ∃ out, ctx.ChecksInit scope info field out := by
        intro field hfield
        obtain ⟨value, hvalue, htype⟩ := (hfields field hfield _).2 (htypes field hfield)
        refine ⟨⟨field.loc, field.name, value⟩, rfl, rfl, hvalue, ?_⟩
        rw [htype, h.registry.fieldType?_eq_some_iff hget]
        exact hhas field hfield
      obtain ⟨outs, houts⟩ := exists_forall₂ hchecked
      refine ⟨_, ⟨info, outs, ⟨TypeScope.simple?_eq_ok_none_iff.2 ⟨hpath, hitem⟩, owner, loc', name, members,
        (h.resolvePath_eq_ok_iff hpath).2 hmeans, hget⟩, hperm.nodup_iff.2 hmembers, houts, ?_, rfl⟩, ?_⟩
      · intro fieldName hmem
        exact hperm.mem_iff.2 (hfieldNames ▸ hmem)
      · rw [TypedExpr.type, hname]

/-- Checking an expression finds exactly the types that the rules give it. -/
theorem agrees (e : Expr) : ctx.Agrees scope e := by
  induction e using Expr.induct with
  | literal loc value =>
    intro type
    simp only [Context.expr, pure_eq_ok_iff, exists_eq_left', TypedExpr.type]
    constructor
    · rintro rfl
      exact .literal
    · intro htype
      cases htype
      rfl
  | binding loc path => exact h.binding_agrees
  | field loc root fields => exact h.field_agrees
  | call loc callee typeArgs args hargs => exact h.call_agrees hargs
  | init loc struct fields hfields => exact h.init_agrees hfields
  | unary loc op operand hoperand => exact unary_agrees hoperand
  | binary loc op left right hleft hright => exact binary_agrees hleft hright
  | paren loc inner hinner =>
    intro type
    simp only [Context.expr, bind_eq_ok_iff, pure_eq_ok_iff]
    constructor
    · rintro ⟨_, ⟨part, hpart, rfl⟩, rfl⟩
      exact .paren ((hinner part.type).1 ⟨part, hpart, rfl⟩)
    · intro htype
      cases htype with
      | paren htype =>
        obtain ⟨part, hpart, rfl⟩ := (hinner _).2 htype
        exact ⟨_, ⟨part, hpart, rfl⟩, rfl⟩
  | operatorless loc operands =>
    intro type
    simp only [Context.expr, bind_eq_ok_iff, reduceCtorEq, and_false, exists_false, false_and, false_iff]
    intro htype
    cases htype
  | unknown node =>
    intro type
    simp only [Context.expr, reduceCtorEq, false_and, exists_false, false_iff]
    intro htype
    cases htype

end Knows

end Context

end Smpl
