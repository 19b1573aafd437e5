import Smpl.Proofs.Typing.Resolution
import Smpl.Proofs.Typing.Table

namespace Smpl

/-- The declared types are those that the modules declare. -/
structure DeclaredTypes.Describes (types : DeclaredTypes) (graph : Graph) : Prop where
  structs : ∀ {name decl}, types.structs.get name = .ok decl ↔
    decl.name = name ∧ graph.Declares name.moduleName (.struct decl.loc name.name decl.fields)
  opaqueTypes : ∀ {name info}, types.opaques.get name = .ok info ↔
    info.name = name ∧ ∃ loc, graph.Declares name.moduleName (.opaqueType loc name.name info.typeParams)

namespace TypeScope

def site (scope : TypeScope) : Site :=
  ⟨scope.graph, scope.moduleName, scope.typeNames⟩

/-- A scope of types inside a module of a program. -/
structure Knows (scope : TypeScope) : Prop where
  graph : scope.graph.WellFormed
  types : scope.types.Describes scope.graph
  viewer : ∃ module_, scope.graph.find? scope.moduleName = some module_

/-- Resolving a written type finds exactly the type that it denotes. -/
def Agrees (scope : TypeScope) (type : TypeExpr) : Prop :=
  ∀ denoted, (∃ resolved, scope.resolve type = .ok resolved ∧ resolved.type = denoted) ↔
    Denotes scope.site type denoted

theorem mapM_resolve_iff {scope : TypeScope} {args : List TypeExpr} (hargs : ∀ type ∈ args, scope.Agrees type)
    {types : List Ty} :
    (∃ resolved, args.mapM scope.resolve = .ok resolved ∧ resolved.map (·.type) = types) ↔
      List.Forall₂ (Denotes scope.site) args types := by
  rw [exists_mapM_map_iff, forall₂_congr_of_mem hargs]

namespace Knows

variable {scope : TypeScope} (h : scope.Knows) {path : Path} {loc : Location} {args : List TypeExpr} {denoted : Ty}
include h

theorem resolvePath_eq_ok_iff {loc : Option Location} {owner : String} {item : Item} (hpath : path.isMissing = false) :
    scope.graph.resolvePath scope.moduleName path loc = .ok (some (owner, item)) ↔
      scope.graph.Means scope.moduleName path owner item := by
  obtain ⟨module_, hfind⟩ := h.viewer
  exact h.graph.resolvePath_eq_ok_iff hfind hpath

theorem denotes_of_resolvesNamed {resolved : TypedTypeExpr} (hargs : ∀ type ∈ args, scope.Agrees type)
    (hresolved : ResolvesNamed scope loc path args resolved) :
    Denotes scope.site (.named loc path args) resolved.type := by
  cases hresolved with
  | simple hsimple =>
    rcases simple?_eq_ok_some_iff.1 hsimple with ⟨hpath, hname⟩ | ⟨hpath, hprimitive, hname⟩
    · rw [hpath]
      obtain ⟨primitive, hprimitive, rfl⟩ := Option.map_eq_some_iff.1 hname
      exact .primitive hprimitive
    · rw [hpath]
      exact .typeName hprimitive hname
  | struct hsimple hfound hdeclared =>
    obtain ⟨hpath, hitem⟩ := simple?_eq_ok_none_iff.1 hsimple
    rw [(h.types.structs.1 hdeclared).1]
    exact .struct hitem ((h.resolvePath_eq_ok_iff hpath).1 hfound)
  | @opaqueType owner name loc' typeParams declared _ resolved hsimple hfound hdeclared hlength hresolved =>
    obtain ⟨hpath, hitem⟩ := simple?_eq_ok_none_iff.1 hsimple
    have hmeans := (h.resolvePath_eq_ok_iff hpath).1 hfound
    obtain ⟨_, loc'', hdeclares⟩ := h.types.opaqueTypes.1 hdeclared
    have hsame := h.graph.declares_unique hdeclares hmeans.declares rfl
    cases hsame
    exact .opaqueType hitem hmeans hlength ((mapM_resolve_iff hargs).1 ⟨resolved, hresolved, rfl⟩)

theorem resolvesNamed_of_denotes (hargs : ∀ type ∈ args, scope.Agrees type)
    (hdenotes : Denotes scope.site (.named loc path args) denoted) :
    ∃ resolved, ResolvesNamed scope loc path args resolved ∧ resolved.type = denoted := by
  cases hdenotes with
  | primitive hname =>
    exact ⟨_, .simple (simple?_eq_ok_some_iff.2 (.inl ⟨rfl, Option.map_eq_some_iff.2 ⟨_, hname, rfl⟩⟩)), rfl⟩
  | typeName hprimitive hname =>
    exact ⟨_, .simple (simple?_eq_ok_some_iff.2 (.inr ⟨rfl, hprimitive, hname⟩)), rfl⟩
  | @struct _ loc' _ owner name fields hitem hmeans =>
    have hsimple := simple?_eq_ok_none_iff.2 ⟨hmeans.isMissing, hitem⟩
    have hdeclared : scope.types.structs.get ⟨owner, name⟩ = .ok ⟨⟨owner, name⟩, fields, loc'⟩ :=
      h.types.structs.2 ⟨rfl, hmeans.declares⟩
    exact ⟨_, .struct hsimple ((h.resolvePath_eq_ok_iff hmeans.isMissing).2 hmeans) hdeclared, rfl⟩
  | @opaqueType _ loc' _ owner name typeParams _ types hitem hmeans hlength htypes =>
    have hsimple := simple?_eq_ok_none_iff.2 ⟨hmeans.isMissing, hitem⟩
    have hdeclared : scope.types.opaques.get ⟨owner, name⟩ = .ok ⟨⟨owner, name⟩, typeParams⟩ :=
      h.types.opaqueTypes.2 ⟨rfl, loc', hmeans.declares⟩
    obtain ⟨resolved, hresolved, rfl⟩ := (mapM_resolve_iff hargs).2 htypes
    exact ⟨_, .opaqueType hsimple ((h.resolvePath_eq_ok_iff hmeans.isMissing).2 hmeans) hdeclared hlength hresolved,
      rfl⟩

/-- A written type resolves to exactly what it denotes. -/
theorem agrees (type : TypeExpr) : scope.Agrees type := by
  induction type using TypeExpr.induct with
  | named loc path args hargs =>
    intro denoted
    simp only [resolve_named_eq_ok_iff]
    constructor
    · rintro ⟨resolved, hresolved, rfl⟩
      exact h.denotes_of_resolvesNamed hargs hresolved
    · exact h.resolvesNamed_of_denotes hargs
  | array loc element length helement =>
    intro denoted
    simp only [resolve_array_eq_ok_iff]
    constructor
    · rintro ⟨_, ⟨part, hpart, rfl⟩, rfl⟩
      exact .array ((helement part.type).1 ⟨part, hpart, rfl⟩)
    · intro hdenotes
      cases hdenotes with
      | array hdenotes =>
        obtain ⟨part, hpart, rfl⟩ := (helement _).2 hdenotes
        exact ⟨_, ⟨part, hpart, rfl⟩, rfl⟩
  | function loc params result hparams hresult =>
    intro denoted
    simp only [resolve_function_eq_ok_iff]
    constructor
    · rintro ⟨_, ⟨parts, part, hparts, hpart, rfl⟩, rfl⟩
      have htypes := (mapM_resolve_iff hparams).1 ⟨parts, hparts, rfl⟩
      cases result with
      | none =>
        cases hpart
        exact .procedure htypes
      | some type =>
        obtain ⟨resolved, hresolved, rfl⟩ := resolveOption_some_eq_ok_iff.1 hpart
        exact .function htypes ((hresult type rfl resolved.type).1 ⟨resolved, hresolved, rfl⟩)
    · intro hdenotes
      cases hdenotes with
      | procedure htypes =>
        obtain ⟨parts, hparts, rfl⟩ := (mapM_resolve_iff hparams).2 htypes
        exact ⟨_, ⟨parts, none, hparts, rfl, rfl⟩, rfl⟩
      | @function _ _ type _ _ htypes hdenotes =>
        obtain ⟨parts, hparts, rfl⟩ := (mapM_resolve_iff hparams).2 htypes
        obtain ⟨part, hpart, rfl⟩ := (hresult type rfl _).2 hdenotes
        exact ⟨_, ⟨parts, some part, hparts, resolveOption_some_eq_ok_iff.2 ⟨part, hpart, rfl⟩, rfl⟩, rfl⟩
  | unknown node =>
    intro denoted
    constructor
    · rintro ⟨resolved, hresolved, _⟩
      cases hresolved
    · intro hdenotes
      cases hdenotes

theorem resolveOption_iff_denotes {result : Option TypeExpr} :
    (∃ resolved, scope.resolveOption result = .ok resolved ∧ (resolved.map (·.type)).getD .unit = denoted) ↔
      DenotesResult scope.site result denoted := by
  cases result with
  | none => simp [resolveOption, DenotesResult, eq_comm]
  | some type =>
    rw [DenotesResult, ← h.agrees type denoted]
    simp only [resolveOption_some_eq_ok_iff]
    constructor
    · rintro ⟨_, ⟨part, hpart, rfl⟩, rfl⟩
      exact ⟨part, hpart, rfl⟩
    · rintro ⟨part, hpart, rfl⟩
      exact ⟨_, ⟨part, hpart, rfl⟩, rfl⟩

end Knows

end TypeScope

end Smpl
