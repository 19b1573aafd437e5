import Smpl.Proofs.Checker.Declaration

namespace Smpl

namespace Context

variable {ctx : Context} {scope : Scope} {path : Path} {loc : Location}

/-- Only a bare name is that of a local binding. -/
theorem local?_eq_ok_some_iff {symbol : Local} :
    local? scope path = .ok (some symbol) ↔ path = .bare path.name ∧ scope.lookup path.name = some symbol := by
  obtain ⟨modules, name, isMissing⟩ := path
  unfold local?
  cases isMissing <;> cases modules <;> simp [Path.isQualified, Path.bare]

theorem local?_eq_ok_none_iff :
    local? scope path = .ok none ↔ path.isMissing = false ∧ (path.modules = [] → scope.lookup path.name = none) := by
  obtain ⟨modules, name, isMissing⟩ := path
  unfold local?
  cases isMissing <;> cases modules <;> simp [Path.isQualified]

theorem binding_eq_ok_iff {name : String} {symbol : Local} :
    ctx.binding scope name loc = .ok symbol ↔ scope.lookup name = some symbol := by
  unfold binding
  cases scope.lookup name with
  | some found => simp
  | none =>
    simp only [reduceCtorEq, iff_false, bind_eq_ok_iff, not_exists, not_and]
    intro found _
    split
    · simp
    · split <;> simp

/-- The item of a path is the one that the module graph finds, from the module that is checked. -/
theorem item_eq_ok_iff {found : String × Item} :
    ctx.item scope path loc = .ok found ↔
      ctx.graph.resolvePath ctx.moduleName path (some loc) = .ok (some found) := by
  simp only [item, bind_eq_ok_iff]
  constructor
  · rintro ⟨result, hresult, h⟩
    split at h
    · cases h
      exact hresult
    · split at h <;> simp [bind_eq_ok_iff] at h
  · intro h
    exact ⟨some found, h, rfl⟩

/-- What a name without a call stands for: a binding, or else a function that is not generic. -/
inductive FindsValue (ctx : Context) (scope : Scope) (path : Path) (loc : Location) : Referent → Prop
  | binding {symbol : Local} :
    local? scope path = .ok (some symbol) → FindsValue ctx scope path loc (.binding symbol)
  | function {owner : String} {item : Item} {header : Header TypeExpr} {signature : Signature} :
    local? scope path = .ok none →
    ctx.graph.resolvePath ctx.moduleName path (some loc) = .ok (some (owner, item)) → item.header? = some header →
    ctx.registry.functions.get ⟨owner, header.name⟩ = .ok signature → signature.typeParams = [] →
    FindsValue ctx scope path loc (.function signature)

/-- Looking up a value succeeds in these ways only. -/
theorem value_eq_ok_iff {referent : Referent} :
    ctx.value scope path loc = .ok referent ↔ FindsValue ctx scope path loc referent := by
  constructor
  · intro h
    simp only [value, bind_eq_ok_iff] at h
    obtain ⟨found, hlocal, h⟩ := h
    split at h
    · cases h
      exact .binding hlocal
    · simp only [bind_eq_ok_iff, item_eq_ok_iff] at h
      obtain ⟨⟨owner, item⟩, hitem, h⟩ := h
      cases item with
      | function _ header _ | builtin _ header =>
        simp only [bind_eq_ok_iff] at h
        obtain ⟨signature, hsignature, h⟩ := h
        split at h
        · simp [bind_eq_ok_iff] at h
        · next hgeneric =>
          cases h
          exact .function hlocal hitem rfl hsignature (by simpa [Signature.isGeneric] using hgeneric)
      | _ => simp at h
  · intro h
    cases h with
    | binding hlocal => simp [value, hlocal]
    | @function owner item header signature hlocal hitem hheader hsignature hgeneric =>
      have hfound : ctx.item scope path loc = .ok (owner, item) := item_eq_ok_iff.2 hitem
      cases item <;> cases hheader <;>
        simp [value, hlocal, hfound, hsignature, Signature.isGeneric, hgeneric]

/-- What a call calls: a binding that holds a function, or else a function with its type arguments. -/
inductive FindsCallee (ctx : Context) (scope : Scope) (path : Path) (loc : Location) : List TypeExpr → Callee → Prop
  | binding {symbol : Local} {params : List Ty} {result : Ty} :
    local? scope path = .ok (some symbol) → symbol.type = .function params result →
    FindsCallee ctx scope path loc [] ⟨.binding symbol, [], params, result⟩
  | function {owner : String} {item : Item} {header : Header TypeExpr} {signature : Signature}
      {typeArgs : List TypeExpr} {resolved : List TypedTypeExpr} :
    local? scope path = .ok none →
    ctx.graph.resolvePath ctx.moduleName path (some loc) = .ok (some (owner, item)) → item.header? = some header →
    ctx.registry.functions.get ⟨owner, header.name⟩ = .ok signature → typeArgs.length = signature.typeParams.length →
    typeArgs.mapM ctx.typeScope.resolve = .ok resolved →
    FindsCallee ctx scope path loc typeArgs
      ⟨.function signature, resolved, (signature.instantiate (resolved.map (·.type))).1,
        (signature.instantiate (resolved.map (·.type))).2⟩

/-- Looking up the function of a call succeeds in these ways only. -/
theorem callee_eq_ok_iff {typeArgs : List TypeExpr} {callee : Callee} :
    ctx.callee scope path typeArgs loc = .ok callee ↔ FindsCallee ctx scope path loc typeArgs callee := by
  constructor
  · intro h
    simp only [Context.callee, bind_eq_ok_iff] at h
    obtain ⟨found, hlocal, h⟩ := h
    split at h
    · split at h
      · next htype =>
        simp only [bind_eq_ok_iff, expectTypeArgs_eq_ok_iff, pure_eq_ok_iff] at h
        obtain ⟨_, hargs, rfl⟩ := h
        obtain rfl := List.length_eq_zero_iff.1 hargs
        exact .binding hlocal htype
      · simp at h
    · simp only [bind_eq_ok_iff, item_eq_ok_iff] at h
      obtain ⟨⟨owner, item⟩, hitem, h⟩ := h
      cases item with
      | function _ header _ | builtin _ header =>
        simp only [bind_eq_ok_iff, expectTypeArgs_eq_ok_iff, TypeScope.resolveList_eq_mapM, pure_eq_ok_iff] at h
        obtain ⟨signature, hsignature, _, hargs, resolved, hresolved, rfl⟩ := h
        exact .function hlocal hitem rfl hsignature hargs hresolved
      | _ => simp at h
  · intro h
    cases h with
    | binding hlocal htype => simp [Context.callee, hlocal, htype, expectTypeArgs]
    | @function owner item header signature _ resolved hlocal hitem hheader hsignature hargs hresolved =>
      have hfound : ctx.item scope path loc = .ok (owner, item) := item_eq_ok_iff.2 hitem
      cases item <;> cases hheader <;>
        simp [Context.callee, hlocal, hfound, hsignature, expectTypeArgs, hargs, TypeScope.resolveList_eq_mapM,
          hresolved]

theorem simple?_eq_ok_none_iff_contains (hpath : path.isMissing = false) :
    ctx.typeScope.simple? path = .ok none ↔
      (!path.isQualified && (primitiveNames ++ ctx.typeNames.map (·.1)).contains path.name) = false := by
  have hlookup : ctx.typeNames.lookup path.name = none ↔ path.name ∉ ctx.typeNames.map (·.1) := by
    rw [List.lookup_eq_none_iff, List.mem_map]
    constructor
    · rintro h ⟨entry, hentry, hname⟩
      simpa [hname] using h entry hentry
    · intro h entry hentry
      exact bne_iff_ne.2 fun hname => h ⟨entry, hentry, hname.symm⟩
  rw [TypeScope.simple?_eq_ok_none_iff, typeScope, hlookup, Primitive.ofName?_eq_none_iff]
  cases hmodules : path.modules <;> simp [hpath, Path.isQualified, hmodules]

/-- The struct of an initializer is a declared one: primitive types and type parameters hide it. -/
theorem struct_eq_ok_iff {info : StructInfo} :
    ctx.struct path loc = .ok info ↔
      ctx.typeScope.simple? path = .ok none ∧ ∃ owner loc' name fields,
        ctx.graph.resolvePath ctx.moduleName path (some loc) = .ok (some (owner, .struct loc' name fields)) ∧
          ctx.registry.structs.get ⟨owner, name⟩ = .ok info := by
  cases hpath : path.isMissing with
  | true => simp [struct, TypeScope.simple?, hpath, bind, Except.bind]
  | false =>
    rw [simple?_eq_ok_none_iff_contains hpath, struct]
    simp only [hpath, Bool.false_eq_true, if_false]
    split
    · next hnamed =>
      rw [hnamed]
      simp [bind_eq_ok_iff]
    · next hnamed =>
      simp only [Bool.eq_false_iff.2 hnamed, true_and, bind_eq_ok_iff]
      constructor
      · rintro ⟨found, hfound, h⟩
        split at h
        · simp [bind_eq_ok_iff] at h
        · exact ⟨_, _, _, _, hfound, h⟩
        · simp at h
        · simp at h
      · rintro ⟨owner, loc', name, fields, hfound, h⟩
        exact ⟨_, hfound, h⟩

/-- Only a struct has fields, and just those that it declares. -/
theorem fieldType_eq_ok_iff {base type : Ty} {field : String} :
    ctx.fieldType loc base field = .ok type ↔
      ∃ struct info, base = .struct struct ∧ ctx.registry.structs.get struct = .ok info ∧
        info.fieldType? field = some type := by
  unfold fieldType
  cases base with
  | struct name =>
    simp only [bind_eq_ok_iff, Ty.struct.injEq]
    constructor
    · rintro ⟨info, hinfo, h⟩
      split at h
      · next found hfound =>
        cases h
        exact ⟨name, info, rfl, hinfo, hfound⟩
      · simp at h
    · rintro ⟨_, info, rfl, hinfo, hfound⟩
      exact ⟨info, hinfo, by simp [hfound]⟩
  | _ => simp

theorem chainType_cons_eq_ok_iff {base type : Ty} {field : String} {fields : List String} :
    ctx.chainType loc base (field :: fields) = .ok type ↔
      ∃ next, ctx.fieldType loc base field = .ok next ∧ ctx.chainType loc next fields = .ok type := by
  simp only [chainType, List.foldlM_cons, bind_eq_ok_iff]

end Context

end Smpl
