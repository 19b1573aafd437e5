import Smpl.Proofs.Checker.Lookup

namespace Smpl

open List

theorem Ty.isNumeric_iff {type : Ty} : type.isNumeric = true ↔ type = .int ∨ type = .float := by
  simp [Ty.isNumeric]

theorem Ty.isPrimitive_iff {type : Ty} :
    type.isPrimitive = true ↔ ∃ primitive, type = .primitive primitive ∧ primitive ≠ .unit := by
  cases type <;> simp [Ty.isPrimitive]

namespace Context

variable {ctx : Context} {scope : Scope} {path : Path} {loc : Location} {type : Ty} {args : List Expr}
  {checked : TypedExpr} {fields : List (FieldInit Expr)}

/-- The operands that a unary operator takes, and its type on them. -/
theorem unaryType_eq_ok_iff {op : UnaryOp} {operand : Ty} :
    unaryType op operand loc = .ok type ↔
      match op with
      | .negate => type = operand ∧ operand.isNumeric = true
      | .not => type = .bool ∧ operand = .bool
      | .reference => type = .reference operand
      | .dereference => operand = .reference type := by
  cases op with
  | negate =>
    cases hnumeric : operand.isNumeric <;> simp [unaryType, hnumeric, @eq_comm _ operand]
  | not => simp [unaryType, bind_eq_ok_iff, @eq_comm _ Ty.bool, and_comm]
  | reference => simp [unaryType, @eq_comm _ _ type]
  | dereference =>
    cases operand <;> simp [unaryType]

/-- The operands that a binary operator takes, always of one type, and its type on them. -/
theorem binaryType_eq_ok_iff {op : BinaryOp} {left right : TypedExpr} :
    binaryType op left right = .ok type ↔
      if op.isLogical then left.type = .bool ∧ right.type = .bool ∧ type = .bool
      else if op.isEquality then left.type.isPrimitive = true ∧ right.type = left.type ∧ type = .bool
      else left.type.isNumeric = true ∧ right.type = left.type ∧
        type = if op.isRelational then .bool else left.type := by
  unfold binaryType
  split
  · simp [bind_eq_ok_iff, @eq_comm _ Ty.bool]
  split
  · cases hprimitive : left.type.isPrimitive <;> simp [bind_eq_ok_iff, @eq_comm _ Ty.bool, @eq_comm _ left.type]
  · cases hnumeric : left.type.isNumeric <;> simp [bind_eq_ok_iff, @eq_comm _ _ type, @eq_comm _ left.type right.type]

/-- The arguments of a call are right exactly if there is one for each parameter and has its type. -/
theorem args_eq_ok_iff {function : String} {index : Nat} {params : List Ty} {checked : List TypedExpr}
    (hlength : args.length = params.length) :
    ctx.args scope function index params args = .ok checked ↔
      args.mapM (ctx.expr scope) = .ok checked ∧ checked.map (·.type) = params := by
  induction args generalizing index params checked with
  | nil =>
    obtain rfl := length_eq_zero_iff.1 hlength.symm
    simp only [Context.args, pure_eq_ok_iff, mapM_nil]
    constructor
    · rintro rfl
      exact ⟨rfl, rfl⟩
    · exact fun h => h.1
  | cons arg args ih =>
    cases params with
    | nil => cases hlength
    | cons param params =>
      simp only [Context.args, mapM_cons, bind_eq_ok_iff, expectType_eq_ok_iff, pure_eq_ok_iff,
        ih (Nat.succ.inj hlength)]
      constructor
      · rintro ⟨first, hfirst, _, rfl, others, ⟨hothers, rfl⟩, rfl⟩
        exact ⟨⟨first, hfirst, others, hothers, rfl⟩, rfl⟩
      · rintro ⟨⟨first, hfirst, others, hothers, rfl⟩, htypes⟩
        rw [map_cons, List.cons.injEq] at htypes
        exact ⟨first, hfirst, (), htypes.1.symm, others, ⟨hothers, htypes.2⟩, rfl⟩

/-- A field of an initializer with its checked value, which has the type of the field. -/
structure ChecksInit (ctx : Context) (scope : Scope) (info : StructInfo) (field : FieldInit Expr)
    (checked : FieldInit TypedExpr) : Prop where
  loc : checked.loc = field.loc
  name : checked.name = field.name
  value : ctx.expr scope field.value = .ok checked.value
  type : info.fieldType? field.name = some checked.value.type

/-- The entries of an initializer are right exactly if no field is given twice and each has the type of its field. -/
theorem inits_eq_ok_iff {info : StructInfo} {given : List String} {checked : List (FieldInit TypedExpr)} :
    ctx.inits scope info given fields = .ok checked ↔
      FreshNames given (fields.map (·.name)) ∧ Forall₂ (ctx.ChecksInit scope info) fields checked := by
  induction fields generalizing given checked with
  | nil => simp [Context.inits, FreshNames, eq_comm]
  | cons field fields ih =>
    obtain ⟨loc, name, value⟩ := field
    rw [map_cons, freshNames_cons_iff, forall₂_cons_left_iff, Context.inits]
    by_cases hgiven : name ∈ given
    · simp [hgiven, bind_eq_ok_iff]
    · simp only [contains_eq_mem, hgiven, decide_false, Bool.false_eq_true, if_false, not_false_eq_true, true_and]
      cases htype : info.fieldType? name with
      | none =>
        simp only [refuse_eq_ok_iff, false_iff, not_and, not_exists]
        rintro _ out outs hout _
        rw [hout.type] at htype
        cases htype
      | some type =>
        simp only [bind_eq_ok_iff, expectType_eq_ok_iff, pure_eq_ok_iff, ih]
        constructor
        · rintro ⟨out, hout, _, rfl, outs, ⟨hnames, houts⟩, rfl⟩
          exact ⟨hnames, _, outs, ⟨rfl, rfl, hout, htype⟩, houts, rfl⟩
        · rintro ⟨hnames, ⟨_, _, out⟩, outs, ⟨rfl, rfl, hout, htype'⟩, houts, rfl⟩
          dsimp only at hout htype'
          rw [htype, Option.some.injEq] at htype'
          exact ⟨out, hout, (), htype', outs, ⟨hnames, houts⟩, rfl⟩

/-- A call is right exactly if its function is found and takes arguments of these types. -/
theorem expr_call_eq_ok_iff {typeArgs : List TypeExpr} :
    ctx.expr scope (.call loc path typeArgs args) = .ok checked ↔
      ∃ callee outs, FindsCallee ctx scope path loc typeArgs callee ∧ args.mapM (ctx.expr scope) = .ok outs ∧
        outs.map (·.type) = callee.params ∧
        checked = .call loc path callee.typeArgs outs callee.target callee.result := by
  simp only [Context.expr, bind_eq_ok_iff, callee_eq_ok_iff]
  constructor
  · rintro ⟨callee, hcallee, h⟩
    split at h
    · simp [bind_eq_ok_iff] at h
    · next hlength =>
      simp only [bind_eq_ok_iff, args_eq_ok_iff (not_not.1 hlength), pure_eq_ok_iff] at h
      obtain ⟨outs, ⟨houts, htypes⟩, rfl⟩ := h
      exact ⟨callee, outs, hcallee, houts, htypes, rfl⟩
  · rintro ⟨callee, outs, hcallee, houts, htypes, rfl⟩
    have hlength : args.length = callee.params.length := by
      rw [← htypes, length_map, (mapM_eq_ok_iff.1 houts).length_eq]
    refine ⟨callee, hcallee, ?_⟩
    simp [hlength, (args_eq_ok_iff hlength).2 ⟨houts, htypes⟩]

/-- An initializer is right exactly if its struct is found and each field of it is given once, with its type. -/
theorem expr_init_eq_ok_iff :
    ctx.expr scope (.init loc path fields) = .ok checked ↔
      ∃ info outs, ctx.struct path loc = .ok info ∧ (fields.map (·.name)).Nodup ∧
        Forall₂ (ctx.ChecksInit scope info) fields outs ∧
        (∀ name ∈ info.fieldNames, name ∈ fields.map (·.name)) ∧ checked = .init loc path outs info.name := by
  simp only [Context.expr, bind_eq_ok_iff, inits_eq_ok_iff, freshNames_nil_iff]
  constructor
  · rintro ⟨info, hinfo, outs, ⟨hnames, houts⟩, h⟩
    split at h
    · simp [bind_eq_ok_iff] at h
    · next hmissing =>
      cases h
      refine ⟨info, outs, hinfo, hnames, houts, ?_, rfl⟩
      simpa [filter_eq_nil_iff] using hmissing
  · rintro ⟨info, outs, hinfo, hnames, houts, hall, rfl⟩
    refine ⟨info, hinfo, outs, ⟨hnames, houts⟩, ?_⟩
    have hmissing : (info.fieldNames.filter fun name => !(fields.map (·.name)).contains name) = [] := by
      simpa [filter_eq_nil_iff] using hall
    simp only [hmissing, isEmpty_nil, Bool.not_true, Bool.false_eq_true, if_false, pure_eq_ok]

/-- What checking an expression finds, by what checking its parts finds. -/
inductive ChecksExpr (ctx : Context) (scope : Scope) : Expr → TypedExpr → Prop
  | literal {loc : Location} {value : Literal} : ChecksExpr ctx scope (.literal loc value) (.literal loc value)
  | binding {loc : Location} {path : Path} {referent : Referent} :
    FindsValue ctx scope path loc referent → ChecksExpr ctx scope (.binding loc path) (.binding loc path referent)
  | field {loc : Location} {root : String} {fields : List String} {symbol : Local} {type : Ty} :
    scope.lookup root = some symbol → ctx.chainType loc symbol.type fields = .ok type →
    ChecksExpr ctx scope (.field loc root fields) (.field loc symbol fields type)
  | call {loc : Location} {path : Path} {typeArgs : List TypeExpr} {args : List Expr} {callee : Callee}
      {outs : List TypedExpr} :
    FindsCallee ctx scope path loc typeArgs callee → args.mapM (ctx.expr scope) = .ok outs →
    outs.map (·.type) = callee.params →
    ChecksExpr ctx scope (.call loc path typeArgs args)
      (.call loc path callee.typeArgs outs callee.target callee.result)
  | init {loc : Location} {path : Path} {fields : List (FieldInit Expr)} {info : StructInfo}
      {outs : List (FieldInit TypedExpr)} :
    ctx.struct path loc = .ok info → (fields.map (·.name)).Nodup →
    Forall₂ (ctx.ChecksInit scope info) fields outs →
    (∀ name ∈ info.fieldNames, name ∈ fields.map (·.name)) →
    ChecksExpr ctx scope (.init loc path fields) (.init loc path outs info.name)
  | unary {loc : Location} {op : UnaryOp} {operand : Expr} {out : TypedExpr} {type : Ty} :
    ctx.expr scope operand = .ok out → unaryType op out.type loc = .ok type →
    ChecksExpr ctx scope (.unary loc op operand) (.unary loc op out type)
  | binary {loc : Location} {op : BinaryOp} {left right : Expr} {out out' : TypedExpr} {type : Ty} :
    ctx.expr scope left = .ok out → ctx.expr scope right = .ok out' → binaryType op out out' = .ok type →
    ChecksExpr ctx scope (.binary loc op left right) (.binary loc op out out' type)
  | paren {loc : Location} {inner : Expr} {out : TypedExpr} :
    ctx.expr scope inner = .ok out → ChecksExpr ctx scope (.paren loc inner) (.paren loc out)

/-- Checking an expression succeeds in these ways only. -/
theorem expr_eq_ok_iff {e : Expr} {out : TypedExpr} :
    ctx.expr scope e = .ok out ↔ ctx.ChecksExpr scope e out := by
  constructor
  · intro h
    cases e with
    | literal loc value =>
      cases h
      exact .literal
    | binding loc path =>
      simp only [Context.expr, bind_eq_ok_iff, value_eq_ok_iff, pure_eq_ok_iff] at h
      obtain ⟨referent, hvalue, rfl⟩ := h
      exact .binding hvalue
    | field loc root fields =>
      simp only [Context.expr, bind_eq_ok_iff, binding_eq_ok_iff, pure_eq_ok_iff] at h
      obtain ⟨symbol, hlookup, type, hchain, rfl⟩ := h
      exact .field hlookup hchain
    | call loc path typeArgs args =>
      obtain ⟨callee, outs, hcallee, houts, htypes, rfl⟩ := expr_call_eq_ok_iff.1 h
      exact .call hcallee houts htypes
    | init loc path fields =>
      obtain ⟨info, outs, hinfo, hnames, houts, hall, rfl⟩ := expr_init_eq_ok_iff.1 h
      exact .init hinfo hnames houts hall
    | unary loc op operand =>
      simp only [Context.expr, bind_eq_ok_iff, pure_eq_ok_iff] at h
      obtain ⟨part, hpart, type, htype, rfl⟩ := h
      exact .unary hpart htype
    | binary loc op left right =>
      simp only [Context.expr, bind_eq_ok_iff, pure_eq_ok_iff] at h
      obtain ⟨first, hfirst, second, hsecond, type, htype, rfl⟩ := h
      exact .binary hfirst hsecond htype
    | paren loc inner =>
      simp only [Context.expr, bind_eq_ok_iff, pure_eq_ok_iff] at h
      obtain ⟨part, hpart, rfl⟩ := h
      exact .paren hpart
    | operatorless loc operands => simp [Context.expr, bind_eq_ok_iff] at h
    | unknown node => cases h
  · intro h
    cases h with
    | literal => rfl
    | binding hvalue => simp [Context.expr, value_eq_ok_iff.2 hvalue]
    | @field loc root _ symbol _ hlookup hchain =>
      have hbinding : ctx.binding scope root loc = .ok symbol := binding_eq_ok_iff.2 hlookup
      simp [Context.expr, hbinding, hchain]
    | call hcallee houts htypes => exact expr_call_eq_ok_iff.2 ⟨_, _, hcallee, houts, htypes, rfl⟩
    | init hinfo hnames houts hall => exact expr_init_eq_ok_iff.2 ⟨_, _, hinfo, hnames, houts, hall, rfl⟩
    | unary hpart htype => simp [Context.expr, hpart, htype]
    | binary hfirst hsecond htype => simp [Context.expr, hfirst, hsecond, htype]
    | paren hpart => simp [Context.expr, hpart]

end Context

end Smpl
