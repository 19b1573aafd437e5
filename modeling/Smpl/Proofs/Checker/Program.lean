import Smpl.Proofs.Checker.Erase

namespace Smpl

open List

namespace Traced

variable {α β : Type}

theorem outcome_bind_eq_ok_iff {work : Traced α} {next : α → Traced β} {b : β} :
    (work >>= next).outcome = .ok b ↔ ∃ a, work.outcome = .ok a ∧ (next a).outcome = .ok b := by
  obtain ⟨notes, tokens, outcome⟩ := work
  cases outcome <;> simp [bind, andThen]

/-- What comes out of two pieces of work is what comes out of the second on the result of the first. -/
theorem outcome_bind (work : Traced α) (next : α → Traced β) :
    (work >>= next).outcome = work.outcome >>= fun a => (next a).outcome := by
  obtain ⟨notes, tokens, outcome⟩ := work
  cases outcome <;> rfl

@[simp] theorem outcome_pure (a : α) : (pure a : Traced α).outcome = .ok a := rfl

@[simp] theorem outcome_note (text : String) : (note text).outcome = .ok () := rfl

@[simp] theorem outcome_liftM (outcome : Except Failure α) : (liftM outcome : Traced α).outcome = outcome := rfl

end Traced

/-- Parameters make a scope exactly if their names differ. -/
theorem foldlM_declare_eq_ok_iff {params : List Local} {scope scope' : Scope} :
    params.foldlM Scope.declare scope = .ok scope' ↔
      FreshNames (scope.current.map (·.name)) (params.map (·.name)) ∧
        scope' = ⟨params.reverse ++ scope.current, scope.outer⟩ := by
  induction params generalizing scope with
  | nil => simp [FreshNames, @eq_comm _ scope]
  | cons param params ih =>
    simp only [foldlM_cons, bind_eq_ok_iff, Scope.declare_eq_ok_iff, ih, map_cons, freshNames_cons_iff,
      reverse_cons, append_assoc, singleton_append]
    constructor
    · rintro ⟨_, ⟨hname, rfl⟩, hnames, rfl⟩
      exact ⟨⟨hname, hnames⟩, rfl⟩
    · rintro ⟨⟨hname, hnames⟩, rfl⟩
      exact ⟨_, ⟨hname, rfl⟩, hnames, rfl⟩

/-- A body is right exactly if its parameters differ, its block is right and, unless it gives no value, it returns. -/
theorem Context.body_eq_ok_iff {ctx : Context} {loc : Location} {params : List Local} {body : Block Stmt}
    {out : Block TypedStmt} :
    ctx.body loc params body = .ok out ↔
      (params.map (·.name)).Nodup ∧ ctx.block false ⟨params.reverse, []⟩ body = .ok out ∧
        (ctx.result ≠ .unit → blockReturns body = true) := by
  simp only [Context.body, bind_eq_ok_iff, foldlM_declare_eq_ok_iff, Scope.empty, map_nil, freshNames_nil_iff,
    append_nil]
  constructor
  · rintro ⟨_, ⟨hnames, rfl⟩, checked, hchecked, h⟩
    split at h
    · simp [bind_eq_ok_iff] at h
    · next hreturns =>
      cases h
      exact ⟨hnames, hchecked, by simpa using hreturns⟩
  · rintro ⟨hnames, hout, hreturns⟩
    refine ⟨_, ⟨hnames, rfl⟩, out, hout, ?_⟩
    rw [if_neg (by simpa using hreturns)]
    rfl

namespace Registry

variable {registry : Registry} {owner : String} {item : Item} {out : TypedItem} {module_ : GraphModule}
  {modules : List TypedModule}

/-- What checking an item finds. -/
inductive ChecksItem (registry : Registry) (owner : String) : Item → TypedItem → Prop
  | use {loc : Location} {name : String} : ChecksItem registry owner (.use loc name) (.use loc name)
  | struct {loc : Location} {name : String} {fields : List (Member TypeExpr)} {declared : StructDecl}
      {resolved : List (Member TypedTypeExpr)} :
    registry.types.structs.get ⟨owner, name⟩ = .ok declared → declared.name = ⟨owner, name⟩ →
    (fields.map (·.name)).Nodup →
    fields.mapM (TypeScope.mk registry.graph registry.types owner []).member = .ok resolved →
    ChecksItem registry owner (.struct loc name fields) (.struct loc name resolved)
  | eclipsed {loc : Location} {name : String} {fields : List (Member TypeExpr)} {declared : StructDecl} :
    registry.types.structs.get ⟨owner, name⟩ = .ok declared → declared.name ≠ ⟨owner, name⟩ →
    ChecksItem registry owner (.struct loc name fields) (.eclipsed loc name fields)
  | opaqueType {loc : Location} {name : String} {typeParams : List String} :
    ChecksItem registry owner (.opaqueType loc name typeParams) (.opaqueType loc name typeParams)
  | function {loc : Location} {header : Header TypeExpr} {body : Block Stmt} {checked : Header TypedTypeExpr}
      {out : Block TypedStmt} :
    registry.graph.checkHeader registry.types owner loc header = .ok checked →
    (registry.bodyContext owner (Signature.ofHeader owner loc false checked)).body loc (paramLocals checked.params)
      body = .ok out →
    ChecksItem registry owner (.function loc header body)
      (.function loc checked out (Signature.ofHeader owner loc false checked))
  | builtin {loc : Location} {header : Header TypeExpr} {checked : Header TypedTypeExpr} :
    registry.graph.checkHeader registry.types owner loc header = .ok checked →
    ChecksItem registry owner (.builtin loc header)
      (.builtin loc checked (Signature.ofHeader owner loc true checked))
  | other {loc : Location} {name : String} : ChecksItem registry owner (.other loc name) (.other loc name)

/-- Checking an item succeeds in these ways only. -/
theorem checkItem_eq_ok_iff : registry.checkItem owner item = .ok out ↔ registry.ChecksItem owner item out := by
  constructor
  · intro h
    cases item with
    | use loc name =>
      cases h
      exact .use
    | struct loc name fields =>
      simp only [checkItem, bind_eq_ok_iff] at h
      obtain ⟨declared, hdeclared, h⟩ := h
      by_cases hname : declared.name = ⟨owner, name⟩
      · simp only [hname, ne_eq, not_true_eq_false, if_false, bind_eq_ok_iff, TypeScope.fields_eq_ok_iff,
          freshNames_nil_iff, pure_eq_ok_iff] at h
        obtain ⟨resolved, ⟨hnames, hresolved⟩, rfl⟩ := h
        exact .struct hdeclared hname hnames hresolved
      · rw [if_pos hname] at h
        cases h
        exact .eclipsed hdeclared hname
    | opaqueType loc name typeParams =>
      cases h
      exact .opaqueType
    | function loc header body =>
      simp only [checkItem, bind_eq_ok_iff, pure_eq_ok_iff] at h
      obtain ⟨checked, hchecked, out, hout, rfl⟩ := h
      exact .function hchecked hout
    | builtin loc header =>
      simp only [checkItem, bind_eq_ok_iff, pure_eq_ok_iff] at h
      obtain ⟨checked, hchecked, rfl⟩ := h
      exact .builtin hchecked
    | other loc name =>
      cases h
      exact .other
  · intro h
    cases h with
    | use | opaqueType | other => rfl
    | @struct _ name _ _ _ hdeclared hname hnames hresolved =>
      have hfields : TypeScope.fields _ name [] _ = .ok _ :=
        TypeScope.fields_eq_ok_iff.2 ⟨freshNames_nil_iff.2 hnames, hresolved⟩
      simp [checkItem, hdeclared, hname, hfields]
    | eclipsed hdeclared hname => simp [checkItem, hdeclared, hname]
    | function hchecked hout => simp [checkItem, hchecked, hout]
    | builtin hchecked => simp [checkItem, hchecked]

theorem checkModule_eq_ok_iff {out : TypedModule} :
    registry.checkModule module_ = .ok out ↔
      ∃ items, module_.tree.items.mapM (registry.checkItem module_.name) = .ok items ∧
        out = ⟨module_.name, module_.tree.loc, module_.tree.name, items, module_.tree.file, module_.isPrelude⟩ := by
  simp [checkModule, bind_eq_ok_iff, @eq_comm _ _ out]

/-- The modules are right exactly if each of their items is. -/
theorem exists_checkModules_iff :
    (∃ modules, registry.checkModules = .ok modules) ↔
      ∀ module_ ∈ registry.graph.modules, ∀ item ∈ module_.tree.items, ∃ out,
        registry.ChecksItem module_.name item out := by
  rw [checkModules, exists_mapM_iff]
  refine forall₂_congr fun module_ _ => ?_
  simp only [checkModule_eq_ok_iff, ← checkItem_eq_ok_iff, ← exists_mapM_iff]
  constructor
  · rintro ⟨_, items, hitems, _⟩
    exact ⟨items, hitems⟩
  · rintro ⟨items, hitems⟩
    exact ⟨_, items, hitems, rfl⟩

/-- An item of a checked program was found by checking an item of its module. -/
theorem exists_checksItem (h : registry.checkModules = .ok modules) {module_ : TypedModule}
    (hmodule : module_ ∈ modules) (hout : out ∈ module_.items) :
    ∃ owner ∈ registry.graph.modules, owner.name = module_.name ∧
      ∃ item ∈ owner.tree.items, registry.ChecksItem owner.name item out := by
  obtain ⟨owner, howner, hchecked⟩ := (mem_of_mapM_eq_ok h).1 hmodule
  obtain ⟨items, hitems, rfl⟩ := checkModule_eq_ok_iff.1 hchecked
  obtain ⟨item, hitem, hout⟩ := (mem_of_mapM_eq_ok hitems).1 hout
  exact ⟨owner, howner, rfl, item, hitem, checkItem_eq_ok_iff.1 hout⟩

/-- A checked item is what was written. -/
theorem ChecksItem.erase (h : registry.ChecksItem owner item out) : out.erase = item := by
  have hheader : ∀ {loc header checked}, registry.graph.checkHeader registry.types owner loc header = .ok checked →
      Header.erase checked = header := by
    intro loc header checked hchecked
    obtain ⟨_, _, params, result, hparams, hresult, rfl⟩ := Graph.checkHeader_eq_ok_iff.1 hchecked
    rw [Header.erase, TypeScope.erase_of_mapM_member hparams, TypeScope.erase_of_resolveOption hresult]
  cases h with
  | use | eclipsed | opaqueType | other => rfl
  | struct _ _ _ hresolved => rw [TypedItem.erase, TypeScope.erase_of_mapM_member hresolved]
  | function hchecked hbody =>
    obtain ⟨_, hblock, _⟩ := Context.body_eq_ok_iff.1 hbody
    rw [TypedItem.erase, hheader hchecked, Context.erase_of_block (Context.erase_of_stmts _) hblock]
  | builtin hchecked => rw [TypedItem.erase, hheader hchecked]

theorem erase_of_checkModule {out : TypedModule} (h : registry.checkModule module_ = .ok out) :
    out.erase = module_.tree := by
  obtain ⟨items, hitems, rfl⟩ := checkModule_eq_ok_iff.1 h
  have herase : items.map TypedItem.erase = module_.tree.items :=
    map_eq_of_forall₂ (fun _ _ _ hout => (checkItem_eq_ok_iff.1 hout).erase) (mapM_eq_ok_iff.1 hitems)
  rw [TypedModule.erase, herase]

/-- The checked modules are those that were read. -/
theorem erase_of_checkModules (h : registry.checkModules = .ok modules) :
    modules.map TypedModule.erase = registry.graph.modules.map (·.tree) := by
  have hmodules := mapM_eq_ok_iff.1 h
  clear h
  generalize registry.graph.modules = sources at hmodules
  induction hmodules with
  | nil => rfl
  | cons hmodule _ ih => rw [map_cons, map_cons, ih, erase_of_checkModule hmodule]

end Registry

/-- Checking a program without its notes. -/
theorem Graph.outcome_check (graph : Graph) :
    graph.check.outcome = do
      let types ← graph.declaredTypes
      let structs ← graph.structs types
      let signatures ← graph.signatures types
      let entry ← graph.entryModule signatures
      let modules ← (Registry.mk graph types structs (functionTable signatures)).checkModules
      return ⟨⟨graph, types, structs, functionTable signatures⟩, modules, entry⟩ := by
  simp only [Graph.check, Traced.outcome_bind, Traced.outcome_liftM, Traced.outcome_note, ok_bind]
  refine bind_congr fun types => bind_congr fun structs => bind_congr fun signatures => bind_congr fun entry => ?_
  cases entry <;> simp only [Traced.outcome_bind, Traced.outcome_liftM, Traced.outcome_note, ok_bind] <;> rfl

/-- A program is right exactly if its declarations, its entry point and its modules are. -/
theorem Graph.check_eq_ok_iff {graph : Graph} {program : Program} :
    graph.check.outcome = .ok program ↔
      ∃ types structs signatures, graph.declaredTypes = .ok types ∧ graph.structs types = .ok structs ∧
        graph.signatures types = .ok signatures ∧ graph.entryModule signatures = .ok program.entry ∧
        program.registry = ⟨graph, types, structs, functionTable signatures⟩ ∧
        program.registry.checkModules = .ok program.modules := by
  simp only [Graph.check, Traced.outcome_bind_eq_ok_iff, Traced.outcome_liftM, Traced.outcome_note, true_and,
    exists_const]
  constructor
  · rintro ⟨types, htypes, structs, hstructs, signatures, hsignatures, entry, hentry, h⟩
    obtain ⟨modules, hmodules, hprogram⟩ : ∃ modules,
        (Registry.mk graph types structs (functionTable signatures)).checkModules = .ok modules ∧
          Program.mk _ modules entry = program := by
      cases entry <;> simpa [Traced.outcome_bind_eq_ok_iff] using h
    subst hprogram
    exact ⟨types, structs, signatures, htypes, hstructs, hsignatures, hentry, rfl, hmodules⟩
  · rintro ⟨types, structs, signatures, htypes, hstructs, hsignatures, hentry, hregistry, hmodules⟩
    obtain ⟨registry, modules, entry⟩ := program
    obtain rfl := hregistry
    refine ⟨types, htypes, structs, hstructs, signatures, hsignatures, entry, hentry, ?_⟩
    cases entry <;> simp [Traced.outcome_bind_eq_ok_iff, hmodules]

end Smpl
