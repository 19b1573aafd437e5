import Smpl.Proofs.Checker.Program
import Smpl.Proofs.Generic.Decoration
import Smpl.Proofs.Spelling.Tree

namespace Smpl

open List

namespace Path

variable {full : Bool} {path : Path} {item : Option ItemName}

theorem isMissing_spelled (h : path.isMissing = false) : (path.spelled full item).isMissing = false := by
  unfold spelled
  split
  · split
    · rfl
    · exact h
  · exact h

/-- A path that is bare after spelling was left alone. -/
theorem spelled_eq_of_bare (h : (path.spelled full item).modules = []) : path.spelled full item = path := by
  unfold spelled at h ⊢
  split at h
  · split at h
    · cases h
    · next hsame => rw [if_neg hsame]
  · rfl

end Path

namespace Context

variable {full : Bool} {images : TypeParam → Ty} {scope : Scope} {path : Path}

theorem local?_subst {symbol : Local} (h : local? scope path = .ok (some symbol)) :
    local? (scope.subst images) path = .ok (some (symbol.subst images)) := by
  obtain ⟨hpath, hlookup⟩ := local?_eq_ok_some_iff.1 h
  exact local?_eq_ok_some_iff.2 ⟨hpath, Scope.lookup_subst_eq_some hlookup⟩

theorem local?_spelled {item : Option ItemName} (h : local? scope path = .ok none) :
    local? (scope.subst images) (path.spelled full item) = .ok none := by
  obtain ⟨hpath, hlookup⟩ := local?_eq_ok_none_iff.1 h
  refine local?_eq_ok_none_iff.2 ⟨Path.isMissing_spelled hpath, fun hbare => ?_⟩
  have hsame := Path.spelled_eq_of_bare hbare
  rw [hsame] at hbare ⊢
  rw [Scope.lookup_subst, hlookup hbare, Option.map_none]

end Context

namespace TypeScope

theorem names_of_mapM_member (full : Bool) {scope : TypeScope} {members : List (Member TypeExpr)}
    {resolved : List (Member TypedTypeExpr)} (h : members.mapM scope.member = .ok resolved) :
    ((resolved.map (Member.spelled full)).map Member.erase).map (·.name) = members.map (·.name) := by
  rw [← erase_of_mapM_member h]
  simp [Member.spelled, Member.erase, Function.comp_def]

/-- What is found in a scope of types is found in another one after the paths are spelled, with other types in the
    place of the type parameters. -/
structure Respells (full : Bool) (images : TypeParam → Ty) (scope scope' : TypeScope) : Prop where
  typeNames : scope'.typeNames = scope.typeNames.map fun entry => (entry.1, entry.2.subst images)
  params : full = true → ∀ {name type}, scope.typeNames.lookup name = some type → type.item? = none
  struct : ∀ {path loc owner loc' name fields decl}, path.isMissing = false →
    scope.graph.resolvePath scope.moduleName path loc = .ok (some (owner, .struct loc' name fields)) →
    scope.types.structs.get ⟨owner, name⟩ = .ok decl →
    ∃ owner' loc' name' fields' decl',
      scope'.graph.resolvePath scope'.moduleName (path.spelled full (some decl.name)) loc =
      .ok (some (owner', .struct loc' name' fields')) ∧
        scope'.types.structs.get ⟨owner', name'⟩ = .ok decl' ∧ decl'.name = decl.name
  opaqueType : ∀ {path loc owner loc' name typeParams info}, path.isMissing = false →
    scope.graph.resolvePath scope.moduleName path loc = .ok (some (owner, .opaqueType loc' name typeParams)) →
    scope.types.opaques.get ⟨owner, name⟩ = .ok info →
    scope'.graph.resolvePath scope'.moduleName (path.spelled full (some ⟨owner, name⟩)) loc =
      .ok (some (owner, .opaqueType loc' name typeParams)) ∧
        scope'.types.opaques.get ⟨owner, name⟩ = .ok info

/-- Where all is found that was found before, paths need not be spelled. -/
theorem respells_of_found {images : TypeParam → Ty} {scope scope' : TypeScope}
    (htypeNames : scope'.typeNames = scope.typeNames.map fun entry => (entry.1, entry.2.subst images))
    (hpath : ∀ {path loc found}, path.isMissing = false →
      scope.graph.resolvePath scope.moduleName path loc = .ok (some found) →
      scope'.graph.resolvePath scope'.moduleName path loc = .ok (some found))
    (hstructs : ∀ {name decl}, scope.types.structs.get name = .ok decl → scope'.types.structs.get name = .ok decl)
    (hopaques : ∀ {name info}, scope.types.opaques.get name = .ok info → scope'.types.opaques.get name = .ok info) :
    scope.Respells false images scope' where
  typeNames := htypeNames
  params := fun hfull => absurd hfull Bool.false_ne_true
  struct := by
    intro path loc owner loc' name fields decl hmissing hfound hget
    rw [Path.spelled_false]
    exact ⟨owner, loc', name, fields, decl, hpath hmissing hfound, hstructs hget, rfl⟩
  opaqueType := by
    intro path loc owner loc' name typeParams info hmissing hfound hget
    rw [Path.spelled_false]
    exact ⟨hpath hmissing hfound, hopaques hget⟩

namespace Respells

variable {full : Bool} {images : TypeParam → Ty} {scope scope' : TypeScope} (h : scope.Respells full images scope')
  {path : Path} {types : List TypeExpr} {parts : List TypedTypeExpr}
include h

theorem lookup_typeNames (name : String) :
    scope'.typeNames.lookup name = (scope.typeNames.lookup name).map (Ty.subst images) := by
  rw [h.typeNames]
  exact lookup_map_snd _ _ _

theorem simple?_eq_some {type : Ty} (hsimple : scope.simple? path = .ok (some type)) :
    scope'.simple? path = .ok (some (type.subst images)) := by
  rw [simple?_eq_ok_some_iff, h.lookup_typeNames]
  rcases simple?_eq_ok_some_iff.1 hsimple with ⟨hpath, hname⟩ | ⟨hpath, hprimitive, hname⟩
  · obtain ⟨primitive, hprimitive, rfl⟩ := Option.map_eq_some_iff.1 hname
    exact .inl ⟨hpath, by rw [hprimitive]; rfl⟩
  · exact .inr ⟨hpath, hprimitive, by rw [hname]; rfl⟩

theorem simple?_spelled {item : Option ItemName} (hsimple : scope.simple? path = .ok none) :
    scope'.simple? (path.spelled full item) = .ok none := by
  obtain ⟨hpath, hnames⟩ := simple?_eq_ok_none_iff.1 hsimple
  refine simple?_eq_ok_none_iff.2 ⟨Path.isMissing_spelled hpath, fun hbare => ?_⟩
  have hsame := Path.spelled_eq_of_bare hbare
  rw [hsame] at hbare ⊢
  obtain ⟨hprimitive, hname⟩ := hnames hbare
  exact ⟨hprimitive, by rw [h.lookup_typeNames, hname, Option.map_none]⟩

theorem spelled_of_simple? {type : Ty} (hsimple : scope.simple? path = .ok (some type)) :
    path.spelled full type.item? = path := by
  rcases full.eq_false_or_eq_true with hfull | rfl
  · rcases simple?_eq_ok_some_iff.1 hsimple with ⟨_, hprimitive⟩ | ⟨_, _, hlookup⟩
    · obtain ⟨_, _, rfl⟩ := Option.map_eq_some_iff.1 hprimitive
      rfl
    · rw [h.params hfull hlookup]
      rfl
  · exact Path.spelled_false _ _

omit h in
theorem mapM_resolve_of_mem (htypes : ∀ type ∈ types, ∀ part, scope.resolve type = .ok part →
      scope'.resolve (part.spelled full).erase = .ok ((part.spelled full).subst images))
    (hparts : types.mapM scope.resolve = .ok parts) :
    (eraseTypes (spelledTypes full parts)).mapM scope'.resolve = .ok (substTypes images (spelledTypes full parts)) := by
  rw [spelledTypes_eq_map, eraseTypes_eq_map, substTypes_eq_map, map_map, map_map]
  exact mapM_map_of_mapM htypes hparts

/-- A resolved type is resolved to itself after its paths are spelled, with its type parameters replaced. -/
theorem resolve (type : TypeExpr) {resolved : TypedTypeExpr} (hresolved : scope.resolve type = .ok resolved) :
    scope'.resolve (resolved.spelled full).erase = .ok ((resolved.spelled full).subst images) := by
  induction type using TypeExpr.induct generalizing resolved with
  | named loc path args hargs =>
    cases resolve_named_eq_ok_iff.1 hresolved with
    | simple hsimple =>
      rw [TypedTypeExpr.spelled, h.spelled_of_simple? hsimple]
      exact resolve_named_eq_ok_iff.2 (.simple (h.simple?_eq_some hsimple))
    | struct hsimple hfound hdeclared =>
      have hpath := (simple?_eq_ok_none_iff.1 hsimple).1
      obtain ⟨owner', loc', name', fields', decl', hfound', hdeclared', hname⟩ := h.struct hpath hfound hdeclared
      have hnamed := ResolvesNamed.struct (h.simple?_spelled hsimple) hfound' hdeclared'
      rw [hname] at hnamed
      exact resolve_named_eq_ok_iff.2 hnamed
    | @opaqueType owner name _ _ _ _ parts hsimple hfound hdeclared hlength hparts =>
      have hpath := (simple?_eq_ok_none_iff.1 hsimple).1
      obtain ⟨hfound', hdeclared'⟩ := h.opaqueType hpath hfound hdeclared
      have hlength' : (eraseTypes (spelledTypes full parts)).length = args.length := by
        rw [eraseTypes_eq_map, spelledTypes_eq_map, length_map, length_map, (mapM_eq_ok_iff.1 hparts).length_eq]
      have hnamed := ResolvesNamed.opaqueType (h.simple?_spelled hsimple) hfound' hdeclared' (hlength'.trans hlength)
        (mapM_resolve_of_mem (fun type htype _ => hargs type htype) hparts)
      rw [map_type_substTypes, map_type_spelledTypes, ← Ty.substList_eq_map] at hnamed
      exact resolve_named_eq_ok_iff.2 hnamed
  | array loc element length helement =>
    obtain ⟨part, hpart, rfl⟩ := resolve_array_eq_ok_iff.1 hresolved
    refine resolve_array_eq_ok_iff.2 ⟨_, helement hpart, ?_⟩
    rw [TypedTypeExpr.spelled, TypedTypeExpr.subst, TypedTypeExpr.type_subst, TypedTypeExpr.type_spelled, Ty.subst]
  | function loc params result hparams hresult =>
    obtain ⟨parts, part, hparts, hpart, rfl⟩ := resolve_function_eq_ok_iff.1 hresolved
    refine resolve_function_eq_ok_iff.2 ⟨_, substResult images (spelledResult full part),
      mapM_resolve_of_mem (fun type htype _ => hparams type htype) hparts, ?_, ?_⟩
    · cases result with
      | none =>
        cases hpart
        rfl
      | some result =>
        obtain ⟨type, htype, rfl⟩ := resolveOption_some_eq_ok_iff.1 hpart
        exact resolveOption_some_eq_ok_iff.2 ⟨_, hresult result rfl htype, rfl⟩
    · rw [TypedTypeExpr.spelled, TypedTypeExpr.subst, map_type_substTypes, map_type_spelledTypes,
        resultType_substResult,
        map_type_spelledResult, Ty.subst, Ty.substList_eq_map]
  | unknown node => cases hresolved

end Respells

namespace Respells

variable {full : Bool} {scope scope' : TypeScope} (h : scope.Respells full .param scope')
include h

theorem resolveOption {type : Option TypeExpr} {resolved : Option TypedTypeExpr}
    (hresolved : scope.resolveOption type = .ok resolved) :
    scope'.resolveOption (eraseResult (spelledResult full resolved)) = .ok (spelledResult full resolved) := by
  cases type with
  | none =>
    cases hresolved
    rfl
  | some type =>
    obtain ⟨part, hpart, rfl⟩ := resolveOption_some_eq_ok_iff.1 hresolved
    have hpart' := h.resolve type hpart
    rw [TypedTypeExpr.subst_param] at hpart'
    exact resolveOption_some_eq_ok_iff.2 ⟨_, hpart', rfl⟩

theorem mapM_member {members : List (Member TypeExpr)} {parts : List (Member TypedTypeExpr)}
    (hparts : members.mapM scope.member = .ok parts) :
    ((parts.map (Member.spelled full)).map Member.erase).mapM scope'.member =
      .ok (parts.map (Member.spelled full)) := by
  rw [map_map]
  refine mapM_map_of_mapM (fun member _ part hresolved => ?_) hparts
  obtain ⟨type, htype, rfl⟩ := member_eq_ok_iff.1 hresolved
  have htype' := h.resolve member.type htype
  rw [TypedTypeExpr.subst_param] at htype'
  exact member_eq_ok_iff.2 ⟨_, htype', rfl⟩

end Respells

end TypeScope

/-- A substitution leaves the types of fields alone, and those in signatures but for their own type parameters. -/
structure Registry.Fixes (images : TypeParam → Ty) (registry : Registry) : Prop where
  field : ∀ {name info field type}, registry.structs.get name = .ok info → info.fieldType? field = some type →
    type.subst images = type
  function : ∀ {name signature}, registry.functions.get name = .ok signature → signature.typeParams = [] →
    signature.type.subst images = signature.type
  instantiate : ∀ {name signature}, registry.functions.get name = .ok signature →
    ∀ {types : List Ty}, types.length = signature.typeParams.length →
      signature.instantiate (types.map (Ty.subst images)) =
        ((signature.instantiate types).1.map (Ty.subst images), (signature.instantiate types).2.subst images)

theorem Registry.fixes_param (registry : Registry) : registry.Fixes .param where
  field := fun _ _ => Ty.subst_param _
  function := fun _ _ => Ty.subst_param _
  instantiate := by
    have hsame : Ty.subst .param = id := funext Ty.subst_param
    simp [hsame]

/-- What is found where a body is checked is found in another place after the paths are spelled, with other types in
    the place of the type parameters. -/
structure Context.Respells (full : Bool) (images : TypeParam → Ty) (ctx ctx' : Context) : Prop where
  scope : ctx.typeScope.Respells full images ctx'.typeScope
  struct : ∀ {path loc owner loc' name fields info}, path.isMissing = false →
    ctx.graph.resolvePath ctx.moduleName path loc = .ok (some (owner, .struct loc' name fields)) →
    ctx.registry.structs.get ⟨owner, name⟩ = .ok info →
    ∃ owner' loc' name' fields', ctx'.graph.resolvePath ctx'.moduleName (path.spelled full (some info.name)) loc =
      .ok (some (owner', .struct loc' name' fields')) ∧ ctx'.registry.structs.get ⟨owner', name'⟩ = .ok info
  function : ∀ {path loc owner item header signature}, path.isMissing = false →
    ctx.graph.resolvePath ctx.moduleName path loc = .ok (some (owner, item)) → item.header? = some header →
    ctx.registry.functions.get ⟨owner, header.name⟩ = .ok signature →
    ∃ owner' item' header', ctx'.graph.resolvePath ctx'.moduleName (path.spelled full (some signature.name)) loc =
      .ok (some (owner', item')) ∧ item'.header? = some header' ∧
        ctx'.registry.functions.get ⟨owner', header'.name⟩ = .ok signature
  structs : ∀ {name info}, ctx.registry.structs.get name = .ok info → ctx'.registry.structs.get name = .ok info
  fixes : ctx.registry.Fixes images
  result : ctx'.result = ctx.result.subst images
  unit : ctx'.result = .unit ↔ ctx.result = .unit

theorem Context.respells_of_found {images : TypeParam → Ty} {ctx ctx' : Context}
    (hscope : ctx.typeScope.Respells false images ctx'.typeScope)
    (hpath : ∀ {path loc found}, path.isMissing = false →
      ctx.graph.resolvePath ctx.moduleName path loc = .ok (some found) →
      ctx'.graph.resolvePath ctx'.moduleName path loc = .ok (some found))
    (hstructs : ∀ {name info}, ctx.registry.structs.get name = .ok info → ctx'.registry.structs.get name = .ok info)
    (hfunctions : ∀ {name signature}, ctx.registry.functions.get name = .ok signature →
      ctx'.registry.functions.get name = .ok signature)
    (hfixes : ctx.registry.Fixes images) (hresult : ctx'.result = ctx.result.subst images)
    (hunit : ctx'.result = .unit ↔ ctx.result = .unit) : ctx.Respells false images ctx' where
  scope := hscope
  struct := by
    intro path loc owner loc' name fields info hmissing hfound hget
    rw [Path.spelled_false]
    exact ⟨owner, loc', name, fields, hpath hmissing hfound, hstructs hget⟩
  function := by
    intro path loc owner item header signature hmissing hfound hheader hget
    rw [Path.spelled_false]
    exact ⟨owner, item, header, hpath hmissing hfound, hheader, hfunctions hget⟩
  structs := hstructs
  fixes := hfixes
  result := hresult
  unit := hunit

namespace Context.Respells

variable {full : Bool} {images : TypeParam → Ty} {ctx ctx' : Context} (h : ctx.Respells full images ctx')
  {scope : Scope} {loc : Location} {path : Path} {out : Block TypedStmt} {inLoop : Bool}
include h

theorem value {referent : Referent} (hfinds : ctx.FindsValue scope path loc referent) :
    ctx'.FindsValue (scope.subst images) (path.spelled full referent.item?) loc (referent.subst images) ∧
      (referent.subst images).type = referent.type.subst images := by
  cases hfinds with
  | binding hlocal => exact ⟨.binding (local?_subst hlocal), rfl⟩
  | function hlocal hfound hheader hget hgeneric =>
    have hpath := (local?_eq_ok_none_iff.1 hlocal).1
    obtain ⟨owner', item', header', hfound', hheader', hget'⟩ := h.function hpath hfound hheader hget
    exact ⟨.function (local?_spelled hlocal) hfound' hheader' hget' hgeneric, (h.fixes.function hget hgeneric).symm⟩

/-- A call finds the same function under the other spelling. -/
theorem callee {typeArgs : List TypeExpr} {callee : Callee} (hfinds : ctx.FindsCallee scope path loc typeArgs callee) :
    ctx'.FindsCallee (scope.subst images) (path.spelled full callee.target.item?) loc
      (eraseTypes (spelledTypes full callee.typeArgs))
      ⟨callee.target.subst images, substTypes images (spelledTypes full callee.typeArgs),
        callee.params.map (Ty.subst images), callee.result.subst images⟩ := by
  cases hfinds with
  | binding hlocal htype =>
    refine .binding (local?_subst hlocal) ?_
    rw [Local.subst, htype, Ty.subst, Ty.substList_eq_map]
  | @function owner item header signature _ resolved hlocal hfound hheader hget hlength hresolved =>
    have hpath := (local?_eq_ok_none_iff.1 hlocal).1
    obtain ⟨owner', item', header', hfound', hheader', hget'⟩ := h.function hpath hfound hheader hget
    have hlength' : (eraseTypes (spelledTypes full resolved)).length = typeArgs.length := by
      rw [eraseTypes_eq_map, spelledTypes_eq_map, length_map, length_map, (mapM_eq_ok_iff.1 hresolved).length_eq]
    have htypes : (resolved.map (·.type)).length = signature.typeParams.length := by
      rw [length_map, ← (mapM_eq_ok_iff.1 hresolved).length_eq, hlength]
    have hcallee : ctx'.FindsCallee (scope.subst images) _ loc _ _ :=
      .function (local?_spelled hlocal) hfound' hheader' hget' (hlength'.trans hlength)
        (TypeScope.Respells.mapM_resolve_of_mem (fun type _ _ => h.scope.resolve type) hresolved)
    rw [map_type_substTypes, map_type_spelledTypes, h.fixes.instantiate hget htypes] at hcallee
    exact hcallee

theorem initialized {info : StructInfo} (hinfo : ctx.struct path loc = .ok info) :
    ctx'.struct (path.spelled full (some info.name)) loc = .ok info := by
  obtain ⟨hsimple, owner, loc', name, fields, hfound, hget⟩ := struct_eq_ok_iff.1 hinfo
  have hpath := (TypeScope.simple?_eq_ok_none_iff.1 hsimple).1
  obtain ⟨owner', loc', name', fields', hfound', hget'⟩ := h.struct hpath hfound hget
  exact struct_eq_ok_iff.2 ⟨h.scope.simple?_spelled hsimple, owner', loc', name', fields', hfound', hget'⟩

theorem chainType {base type : Ty} {fields : List String} (hchain : ctx.chainType loc base fields = .ok type) :
    ctx'.chainType loc (base.subst images) fields = .ok (type.subst images) := by
  induction fields generalizing base with
  | nil =>
    cases hchain
    rfl
  | cons field fields ih =>
    obtain ⟨next, hfield, hothers⟩ := chainType_cons_eq_ok_iff.1 hchain
    obtain ⟨struct, info, rfl, hget, htype⟩ := fieldType_eq_ok_iff.1 hfield
    have hnext := ih hothers
    rw [h.fixes.field hget htype] at hnext
    exact chainType_cons_eq_ok_iff.2 ⟨next, fieldType_eq_ok_iff.2 ⟨struct, info, rfl, h.structs hget, htype⟩, hnext⟩

/-- A checked expression is checked to itself after its paths are spelled, with the type parameters replaced in all
    that is found. -/
theorem expr (e : Expr) {out : TypedExpr} (hout : ctx.expr scope e = .ok out) :
    ctx'.expr (scope.subst images) (out.spelled full).erase = .ok ((out.spelled full).subst images) ∧
      ((out.spelled full).subst images).type = out.type.subst images := by
  rw [expr_eq_ok_iff]
  induction e using Expr.induct generalizing out with
  | literal loc value =>
    cases expr_eq_ok_iff.1 hout with
    | literal => exact ⟨.literal, by cases value <;> rfl⟩
  | binding loc path =>
    cases expr_eq_ok_iff.1 hout with
    | binding hfinds =>
      obtain ⟨hfinds', htype⟩ := h.value hfinds
      exact ⟨.binding hfinds', htype⟩
  | field loc root fields =>
    cases expr_eq_ok_iff.1 hout with
    | field hlookup hchain =>
      rw [TypedExpr.spelled, TypedExpr.erase, lookup_name hlookup]
      exact ⟨.field (Scope.lookup_subst_eq_some hlookup) (h.chainType hchain), rfl⟩
  | call loc path typeArgs args hargs =>
    cases expr_eq_ok_iff.1 hout with
    | @call _ _ _ _ callee outs hfinds houts htypes =>
      refine ⟨.call (h.callee hfinds) ?_ ?_, rfl⟩
      · rw [spelledExprs_eq_map, eraseExprs_eq_map, substExprs_eq_map, map_map, map_map]
        exact mapM_map_of_mapM (fun arg harg _ hpart => expr_eq_ok_iff.2 (hargs arg harg hpart).1) houts
      · rw [← htypes, spelledExprs_eq_map, substExprs_eq_map, map_map, map_map, map_map]
        refine map_congr_left fun out hout => ?_
        obtain ⟨arg, harg, hpart⟩ := (mem_of_mapM_eq_ok houts).1 hout
        exact (hargs arg harg hpart).2
  | init loc path fields hfields =>
    cases expr_eq_ok_iff.1 hout with
    | @init _ _ _ info outs hstruct hnames houts hall =>
      have hnames' : (eraseInits (spelledInits full outs)).map (·.name) = fields.map (·.name) := by
        have herase : eraseInits outs = fields := (Expr.init.inj (erase_of_expr _ hout)).2.2
        rw [← herase]
        simp [eraseInits_eq_map, spelledInits_eq_map, FieldInit.erase, FieldInit.spelled, Function.comp_def]
      refine ⟨.init (h.initialized hstruct) (hnames' ▸ hnames) ?_ (hnames' ▸ hall), rfl⟩
      rw [eraseInits_eq_map, spelledInits_eq_map, substInits_eq_map, map_map, map_map, forall₂_map_left_iff,
        forall₂_map_right_iff, forall₂_same]
      intro out hout
      obtain ⟨field, hfield, hpart⟩ := exists_of_forall₂_of_mem_right houts hout
      obtain ⟨_, _, _, _, _, hget⟩ := struct_eq_ok_iff.1 hstruct
      obtain ⟨hvalue, hsame⟩ := hfields field hfield hpart.value
      have htype : info.fieldType? out.name = some ((out.value.spelled full).subst images).type := by
        rw [hsame, hpart.name, h.fixes.field hget.2 hpart.type]
        exact hpart.type
      exact ⟨rfl, rfl, expr_eq_ok_iff.2 hvalue, htype⟩
  | unary loc op operand hoperand =>
    cases expr_eq_ok_iff.1 hout with
    | unary hpart htype =>
      obtain ⟨hpart', hsame⟩ := hoperand hpart
      exact ⟨.unary (expr_eq_ok_iff.2 hpart') (hsame ▸ unaryType_subst htype), rfl⟩
  | binary loc op left right hleft hright =>
    cases expr_eq_ok_iff.1 hout with
    | binary hfirst hsecond htype =>
      obtain ⟨hfirst', hsame⟩ := hleft hfirst
      obtain ⟨hsecond', hsame'⟩ := hright hsecond
      exact ⟨.binary (expr_eq_ok_iff.2 hfirst') (expr_eq_ok_iff.2 hsecond') (binaryType_subst hsame hsame' htype), rfl⟩
  | paren loc inner hinner =>
    cases expr_eq_ok_iff.1 hout with
    | paren hpart =>
      obtain ⟨hpart', hsame⟩ := hinner hpart
      exact ⟨.paren (expr_eq_ok_iff.2 hpart'), hsame⟩
  | operatorless loc operands => cases expr_eq_ok_iff.1 hout
  | unknown node => cases hout

omit h in
theorem block {body : Block Stmt}
    (hstmts : ∀ stmt ∈ body.statements, ∀ {scope inLoop out scope'}, ctx.ChecksStmt inLoop scope stmt out scope' →
      ctx'.ChecksStmt inLoop (scope.subst images) (out.spelled full).erase ((out.spelled full).subst images)
        (scope'.subst images))
    (hout : ctx.block inLoop scope body = .ok out) :
    ctx'.block inLoop (scope.subst images) (eraseBlock (spelledBlock full out)) =
      .ok (substBlock images (spelledBlock full out)) := by
  -- Each statement is checked in the scope that those before it leave, so the scope varies in the induction.
  have hlist : ∀ {stmts : List Stmt} {outs : List TypedStmt} {scope : Scope}, (∀ stmt ∈ stmts, stmt ∈ body.statements) →
      ctx.stmts inLoop scope stmts = .ok outs →
      ctx'.stmts inLoop (scope.subst images) (eraseStmts (spelledStmts full outs)) =
        .ok (substStmts images (spelledStmts full outs)) := by
    intro stmts
    induction stmts with
    | nil =>
      intro outs scope _ houts
      simp only [Context.stmts, pure_eq_ok_iff] at houts
      subst houts
      simp only [spelledStmts, eraseStmts, substStmts, Context.stmts, pure_eq_ok]
    | cons stmt stmts ih =>
      intro outs scope hmem houts
      obtain ⟨hfirst, hmem⟩ := forall_mem_cons.1 hmem
      obtain ⟨out, scope', others, hchecks, hothers, rfl⟩ := stmts_cons_eq_ok_iff.1 houts
      rw [spelledStmts, eraseStmts, substStmts]
      exact stmts_cons_eq_ok_iff.2 ⟨_, scope'.subst images, _, hstmts stmt hfirst hchecks, ih hmem hothers, rfl⟩
  obtain ⟨loc, statements⟩ := out
  obtain ⟨houts, _⟩ := block_eq_ok_iff.1 hout
  rw [spelledBlock, eraseBlock, substBlock]
  exact block_eq_ok_iff.2 ⟨hlist (fun _ hmem => hmem) houts, rfl⟩

/-- A checked statement is checked to itself after its paths are spelled, with the type parameters replaced. -/
theorem stmt (stmt : Stmt) {out : TypedStmt} {scope' : Scope} (hchecks : ctx.ChecksStmt inLoop scope stmt out scope') :
    ctx'.ChecksStmt inLoop (scope.subst images) (out.spelled full).erase ((out.spelled full).subst images)
      (scope'.subst images) := by
  induction stmt using Stmt.induct generalizing inLoop scope out scope' with
  | block body hbody =>
    cases hchecks with
    | block hblock =>
      rw [TypedStmt.spelled, TypedStmt.erase, TypedStmt.subst]
      exact .block (block hbody hblock)
  | letBinding loc name type value =>
    cases hchecks with
    | @letBinding _ _ _ _ resolved out hresolved hout htype hname =>
      obtain ⟨hout', hsame⟩ := h.expr value hout
      have htype' : ((out.spelled full).subst images).type = ((resolved.spelled full).subst images).type := by
        rw [hsame, htype, TypedTypeExpr.type_subst, TypedTypeExpr.type_spelled]
      have hstmt : ctx'.ChecksStmt inLoop (scope.subst images) (.letBinding loc name _ _) _ _ :=
        .letBinding (h.scope.resolve type hresolved) hout' htype' (by rwa [Scope.map_name_subst])
      rw [TypedTypeExpr.type_subst, TypedTypeExpr.type_spelled] at hstmt
      rw [TypedStmt.spelled, TypedStmt.erase, TypedStmt.subst]
      exact hstmt
  | assign loc target fields value =>
    cases hchecks with
    | assign hlookup hchain hout =>
      obtain ⟨hout', hsame⟩ := h.expr value hout
      have hchain' := h.chainType hchain
      rw [← hsame] at hchain'
      rw [TypedStmt.spelled, TypedStmt.erase, TypedStmt.subst, lookup_name hlookup]
      exact .assign (Scope.lookup_subst_eq_some hlookup) hchain' hout'
  | ifChain loc branches otherwise hbranches hotherwise =>
    cases hchecks with
    | @ifChain _ _ _ outs last houts hlast =>
      rw [TypedStmt.spelled, TypedStmt.erase, TypedStmt.subst]
      refine .ifChain ?_ ?_
      · rw [eraseBranches_eq_map, spelledBranches_eq_map, substBranches_eq_map, map_map, map_map,
          forall₂_map_left_iff, forall₂_map_right_iff, forall₂_same]
        intro out hout
        obtain ⟨branch, hbranch, hpart⟩ := exists_of_forall₂_of_mem_right houts hout
        obtain ⟨hcondition, hsame⟩ := h.expr branch.condition hpart.condition
        exact ⟨rfl, hcondition, hsame.trans (by rw [hpart.type]; rfl), block (hbranches branch hbranch) hpart.body⟩
      · cases hlast with
        | none =>
          rw [spelledElse, eraseElse, substElse]
          exact .none
        | some hblock =>
          rw [spelledElse, eraseElse, substElse]
          exact .some (block (hotherwise _ rfl) hblock)
  | whileLoop loc condition body hbody =>
    cases hchecks with
    | whileLoop hout htype hblock =>
      obtain ⟨hout', hsame⟩ := h.expr condition hout
      rw [TypedStmt.spelled, TypedStmt.erase, TypedStmt.subst]
      exact .whileLoop hout' (by rw [hsame, htype]; rfl) (block hbody hblock)
  | returnValue loc value =>
    cases hchecks with
    | returnNothing hresult =>
      rw [TypedStmt.spelled, TypedStmt.erase, TypedStmt.subst]
      exact .returnNothing (h.unit.2 hresult)
    | returnValue hresult hout htype =>
      obtain ⟨hout', hsame⟩ := h.expr _ hout
      rw [TypedStmt.spelled, TypedStmt.erase, TypedStmt.subst]
      exact .returnValue (mt h.unit.1 hresult) hout' (by rw [hsame, htype, h.result])
  | breakLoop loc =>
    cases hchecks with
    | breakLoop hloop =>
      rw [TypedStmt.spelled, TypedStmt.erase, TypedStmt.subst]
      exact .breakLoop hloop
  | continueLoop loc =>
    cases hchecks with
    | continueLoop hloop =>
      rw [TypedStmt.spelled, TypedStmt.erase, TypedStmt.subst]
      exact .continueLoop hloop
  | expression loc value =>
    cases hchecks with
    | expression hout =>
      rw [TypedStmt.spelled, TypedStmt.erase, TypedStmt.subst]
      exact .expression (h.expr value hout).1
  | unknown node => cases hchecks

/-- A checked body is checked to itself after its paths are spelled, with the type parameters replaced. -/
theorem body {locals : List Local} {body : Block Stmt} (hout : ctx.body loc locals body = .ok out) :
    ctx'.body loc (locals.map (Local.subst images)) (eraseBlock (spelledBlock full out)) =
      .ok (substBlock images (spelledBlock full out)) := by
  obtain ⟨hnames, hblock, hreturns⟩ := Context.body_eq_ok_iff.1 hout
  have hblock' := block (fun stmt _ => h.stmt stmt) hblock
  refine Context.body_eq_ok_iff.2 ⟨?_, ?_, ?_⟩
  · rw [map_map]
    exact hnames
  · rw [← map_reverse]
    exact hblock'
  · rw [blockReturns_spelledBlock, erase_of_block (erase_of_stmts _) hblock, ne_eq, h.unit]
    exact hreturns

end Context.Respells

end Smpl
