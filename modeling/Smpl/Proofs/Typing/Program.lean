import Smpl.Proofs.Checker.Program
import Smpl.Proofs.Typing.Decoration
import Smpl.Proofs.Typing.Entry
import Smpl.Proofs.Typing.Return

namespace Smpl

open List

variable {params : List Local} {body : Block Stmt} {loc : Location}

@[simp] theorem map_name_paramLocals (params : List (Member TypedTypeExpr)) :
    ((paramLocals params).map fun param => (param.name, param.type)) =
      params.map fun param => (param.name, param.type.type) := by
  rw [paramLocals, map_map]
  rfl

theorem lookup_map_eq {name : String} :
    (params.map fun param => (param.name, param.type)).lookup name =
      (params.find? fun param => param.name = name).map (·.type) := by
  induction params with
  | nil => rfl
  | cons param params ih =>
    rw [map_cons, lookup_cons, ih, find?_cons]
    by_cases hname : name = param.name
    · simp [hname]
    · have hother : ¬param.name = name := fun heq => hname heq.symm
      simp [hname, hother]

/-- What is in reach in a scope that holds parameters with names of their own. -/
theorem Scope.vars_params (hnames : (params.map (·.name)).Nodup) :
    (Scope.mk params.reverse []).vars = ((params.map fun param => (param.name, param.type)).lookup ·) := by
  have hreverse : (params.reverse.map (·.name)).Nodup := by
    rw [map_reverse, nodup_reverse]
    exact hnames
  funext name
  have hfind : params.reverse.find? (fun param => param.name = name) = params.find? fun param => param.name = name := by
    ext symbol
    rw [find?_eq_some_iff_of_nodup hreverse, find?_eq_some_iff_of_nodup hnames, mem_reverse]
  simp [vars, lookup, frames, findIn, lookup_map_eq, hfind]

/-- Every expression in a checked body was checked, in a scope with the types that are in reach. -/
theorem Context.exists_expr_of_body {ctx : Context} {params : List (Member TypedTypeExpr)}
    {out : Block TypedStmt} (hbody : ctx.body loc (paramLocals params) body = .ok out) {vars : Vars}
    {e : TypedExpr}
    (hholds : TypedStmt.Holds ((params.map fun param => (param.name, param.type.type)).lookup ·)
      out.statements vars e) :
    ∃ scope e', scope.vars = vars ∧ ctx.expr scope e' = .ok e := by
  obtain ⟨hnames, hblock, _⟩ := body_eq_ok_iff.1 hbody
  have hvars := Scope.vars_params hnames
  rw [map_name_paramLocals, ← Scope.vars_push] at hvars
  exact exists_expr_of_holds hholds hvars (block_eq_ok_iff.1 hblock).1

namespace Context.Knows

variable {ctx : Context} (h : ctx.Knows)
include h

/-- A body is right exactly if the rules admit its statements, and a result is returned on every path
    where there is one. -/
theorem exists_body_iff :
    (∃ out, ctx.body loc params body = .ok out) ↔
      (params.map (·.name)).Nodup ∧
        Admits ctx.site ctx.result false ((params.map fun param => (param.name, param.type)).lookup ·) []
          body.statements ∧
        (ctx.result ≠ .unit → AlwaysReturn body.statements) := by
  simp only [body_eq_ok_iff, blockReturns_eq, anyReturns_iff]
  constructor
  · rintro ⟨out, hnames, hout, hreturns⟩
    rw [← Scope.vars_params hnames]
    exact ⟨hnames, (h.agreesOn body.statements).block.1 ⟨out, hout⟩, hreturns⟩
  · rintro ⟨hnames, hadmits, hreturns⟩
    rw [← Scope.vars_params hnames] at hadmits
    obtain ⟨out, hout⟩ := (h.agreesOn body.statements).block.2 hadmits
    exact ⟨out, hnames, hout, hreturns⟩

end Context.Knows

theorem Registry.site_bodyContext {registry : Registry} {owner : String} {header : Header TypeExpr}
    {checked : Header TypedTypeExpr} (h : registry.graph.checkHeader registry.types owner loc header = .ok checked) :
    (registry.bodyContext owner (Signature.ofHeader owner loc false checked)).site =
      registry.graph.site owner header := by
  obtain ⟨hname, htypeParams⟩ := Graph.names_of_checkHeader h
  simp [Registry.bodyContext, Context.site, Graph.site, Signature.ofHeader, Header.typeParamsOf, hname, htypeParams,
    Context.graph]

namespace Registry.Describes

variable {registry : Registry} (h : registry.Describes) {owner : String} {loc : Location} {header : Header TypeExpr}
include h

theorem bodyContext_knows {item : Item} (hdeclares : registry.graph.Declares owner item) (signature : Signature) :
    (registry.bodyContext owner signature).Knows where
  registry := h
  viewer := hdeclares.find? h.graph

/-- A function with a right header is right exactly if the rules admit its body. -/
theorem exists_function_iff {checked : Header TypedTypeExpr}
    (hdeclares : registry.graph.Declares owner (.function loc header body))
    (hchecked : registry.graph.checkHeader registry.types owner loc header = .ok checked) :
    (∃ out, registry.ChecksItem owner (.function loc header body) out) ↔
      ∃ params result, registry.graph.Signs owner header params result ∧
        Admits (registry.graph.site owner header) result false (params.lookup ·) [] body.statements ∧
        (result ≠ .unit → AlwaysReturn body.statements) := by
  have hknows := h.knows hdeclares (typeNamesOf (header.typeParamsOf owner))
  obtain ⟨_, hnames, hsigns⟩ := (Graph.checkHeader_iff_signs hknows).1 ⟨checked, hchecked, rfl, rfl⟩
  have hnames' : ((paramLocals checked.params).map (·.name)).Nodup := by
    have := hsigns.params.names
    simpa [paramLocals, Function.comp_def, ← this] using hnames
  have hbody : (∃ out, Context.body _ loc (paramLocals checked.params) body = .ok out) ↔ _ :=
    (h.bodyContext_knows hdeclares (Signature.ofHeader owner loc false checked)).exists_body_iff
  rw [Registry.site_bodyContext hchecked, map_name_paramLocals] at hbody
  constructor
  · rintro ⟨_, hitem⟩
    cases hitem with
    | function hchecked' hout =>
      rw [hchecked, Except.ok.injEq] at hchecked'
      subst hchecked'
      exact ⟨_, _, hsigns, (hbody.1 ⟨_, hout⟩).2⟩
  · rintro ⟨params, result, hsigns', hright⟩
    obtain ⟨rfl, rfl⟩ := h.signs_unique hdeclares hsigns' hsigns
    obtain ⟨out, hout⟩ := hbody.2 ⟨hnames', hright⟩
    exact ⟨_, .function hchecked hout⟩

end Registry.Describes

namespace Graph

variable {graph : Graph}

/-- Exactly the programs with right declarations and bodies have checked modules. -/
theorem WellFormed.exists_checkModules_iff (h : graph.WellFormed) (hplain : graph.Plain) {types : DeclaredTypes}
    (htypes : graph.declaredTypes = .ok types) {structs : Table StructInfo}
    (hstructs : graph.structs types = .ok structs)
    {signatures : List Signature} (hsignatures : graph.signatures types = .ok signatures) :
    (∃ modules, (Registry.mk graph types structs (functionTable signatures)).checkModules = .ok modules) ↔
      ∀ {owner loc header body}, graph.Declares owner (.function loc header body) →
        ∃ params result, graph.Signs owner header params result ∧
          Admits (graph.site owner header) result false (params.lookup ·) [] body.statements ∧
          (result ≠ .unit → AlwaysReturn body.statements) := by
  have hregistry := h.registry_describes hplain htypes hstructs hsignatures
  have hheaders : ∀ {owner item header}, graph.Declares owner item → item.header? = some header →
      ∃ checked, graph.checkHeader types owner item.loc header = .ok checked := fun hdeclares =>
    exists_signatures_iff.1 ⟨signatures, hsignatures⟩ _ _ _ (declares_iff_mem_items.1 hdeclares).1
  rw [Registry.exists_checkModules_iff]
  constructor
  · intro hitems owner loc header body hdeclares
    obtain ⟨module_, hmodule, rfl, hitem, _⟩ := id hdeclares
    obtain ⟨checked, hchecked⟩ := hheaders hdeclares rfl
    exact (hregistry.exists_function_iff hdeclares hchecked).1 (hitems module_ hmodule _ hitem)
  · intro hbodies module_ hmodule item hitem
    cases item with
    | use => exact ⟨_, .use⟩
    | opaqueType => exact ⟨_, .opaqueType⟩
    | other => exact ⟨_, .other⟩
    | struct loc name fields =>
      have hdeclares : graph.Declares module_.name (.struct loc name fields) := ⟨module_, hmodule, rfl, hitem, rfl⟩
      have hdecl : types.structs.get ⟨module_.name, name⟩ = .ok ⟨⟨module_.name, name⟩, fields, loc⟩ :=
        hregistry.types.structs.2 ⟨rfl, hdeclares⟩
      obtain ⟨hnames, hfields⟩ := (h.exists_structs_iff hplain htypes).1 ⟨structs, hstructs⟩ hdeclares
      obtain ⟨resolved, hresolved⟩ := (hregistry.knows hdeclares []).exists_mapM_member_iff.2 hfields
      exact ⟨_, .struct hdecl rfl hnames hresolved⟩
    | function loc header body =>
      have hdeclares : graph.Declares module_.name (.function loc header body) := ⟨module_, hmodule, rfl, hitem, rfl⟩
      obtain ⟨checked, hchecked⟩ := hheaders hdeclares rfl
      exact (hregistry.exists_function_iff hdeclares hchecked).2 (hbodies hdeclares)
    | builtin loc header =>
      have hdeclares : graph.Declares module_.name (.builtin loc header) := ⟨module_, hmodule, rfl, hitem, rfl⟩
      obtain ⟨checked, hchecked⟩ := hheaders hdeclares rfl
      exact ⟨_, .builtin hchecked⟩

/-- A program is accepted exactly if it follows the rules. -/
theorem WellFormed.exists_check_iff (h : graph.WellFormed) (hplain : graph.Plain) :
    (∃ program, graph.check.outcome = .ok program) ↔ graph.WellTyped := by
  simp only [check_eq_ok_iff]
  constructor
  · rintro ⟨program, types, structs, signatures, htypes, hstructs, hsignatures, hentry, hregistry, hmodules⟩
    rw [hregistry] at hmodules
    obtain ⟨hone, hright⟩ := (h.exists_entryModule_iff hplain htypes hsignatures).1 ⟨_, hentry⟩
    exact {
      opaqueTypes := (declaredTypes_eq_ok_iff.1 htypes).1
      structs := (h.exists_structs_iff hplain htypes).1 ⟨structs, hstructs⟩
      headers := (h.exists_signatures_iff_signs hplain htypes).1 ⟨signatures, hsignatures⟩
      bodies := (h.exists_checkModules_iff hplain htypes hstructs hsignatures).1 ⟨_, hmodules⟩
      oneEntry := hone
      entry := hright }
  · intro hwell
    have htypes : graph.declaredTypes = .ok _ := declaredTypes_eq_ok_iff.2 ⟨hwell.opaqueTypes, rfl⟩
    obtain ⟨structs, hstructs⟩ := (h.exists_structs_iff hplain htypes).2 hwell.structs
    obtain ⟨signatures, hsignatures⟩ := (h.exists_signatures_iff_signs hplain htypes).2 hwell.headers
    obtain ⟨entry, hentry⟩ := (h.exists_entryModule_iff hplain htypes hsignatures).2 ⟨hwell.oneEntry, hwell.entry⟩
    obtain ⟨modules, hmodules⟩ := (h.exists_checkModules_iff hplain htypes hstructs hsignatures).2 hwell.bodies
    exact ⟨⟨_, modules, entry⟩, _, structs, signatures, htypes, hstructs, hsignatures, hentry, rfl, hmodules⟩

end Graph

end Smpl
