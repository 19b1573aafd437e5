import Smpl.Proofs.Grammar.Expression.Soundness

namespace Smpl

theorem BinaryOp.precedence_pos (op : BinaryOp) : 0 < op.precedence := by
  cases op <;> decide

theorem BinaryOp.precedence_le (op : BinaryOp) : op.precedence ≤ 5 := by
  cases op <;> decide

namespace Grammar

/-- Where an expression of a tier ends: what follows neither extends its last path nor is an operator
    that binds at least as tightly. -/
structure EndsOperand (bare : Bool) (tier : Nat) (rest : Tokens) : Prop where
  path : Parse.startsWith .colonColon rest = false
  call : Parse.startsWith .leftParen rest = false
  field : Parse.startsWith .dot rest = false
  init : bare = true → Parse.startsWith .leftBrace rest = false
  operator : ∀ precedence, tier ≤ precedence → Parse.binaryOp? precedence rest = none

/-- The marks that may follow an expression in every context. -/
def closesExpression (mark : Symbol) : Bool :=
  mark = .semicolon || mark = .comma || mark = .rightParen || mark = .rightBrace || mark = .assign

variable {bare : Bool} {tier : Nat} {rest : Tokens}

theorem EndsOperand.mono {tier' : Nat} (h : EndsOperand bare tier rest) (hle : tier ≤ tier') :
    EndsOperand bare tier' rest :=
  ⟨h.path, h.call, h.field, h.init, fun precedence hprecedence => h.operator precedence (by omega)⟩

theorem EndsOperand.of_closes {mark : Symbol} (h : Parse.startsWith mark rest = true)
    (hmark : closesExpression mark = true) : EndsOperand bare tier rest := by
  obtain ⟨lexeme, loc, t, rfl⟩ := Parse.startsWith_eq_true_iff.1 h
  cases mark with
  | semicolon | comma | rightParen | rightBrace | assign => exact ⟨rfl, rfl, rfl, fun _ => rfl, fun _ _ => rfl⟩
  | _ => cases hmark

/-- The brace of a block ends an expression that allows no bare initializer. -/
theorem EndsOperand.of_leftBrace {loc : Location} {t : Tokens} (h : Takes (.symbol .leftBrace) loc rest t) :
    EndsOperand false tier rest := by
  cases h
  exact ⟨rfl, rfl, rfl, nofun, fun _ _ => rfl⟩

/-- An operator that binds less tightly ends an operand. -/
theorem EndsOperand.of_operator {op : BinaryOp} {loc : Location} {t : Tokens}
    (h : Takes (.symbol op.symbol) loc rest t) (hlt : op.precedence < tier) : EndsOperand bare tier rest := by
  have hnone : ∀ precedence, tier ≤ precedence → Parse.binaryOp? precedence rest = none := by
    intro precedence hle
    cases h
    have hop : BinaryOp.ofSymbol? op.symbol = some op := BinaryOp.ofSymbol?_eq_some_iff.2 rfl
    have hne : op.precedence ≠ precedence := by omega
    simp [Parse.binaryOp?, hop, hne]
  cases h
  cases op <;> exact ⟨rfl, rfl, rfl, fun _ => rfl, hnone⟩

theorem EndsElement.endsOperand {closer : Symbol} (h : EndsElement closer rest)
    (hcloser : closesExpression closer = true) : EndsOperand bare tier rest :=
  h.elim (fun hcomma => .of_closes hcomma (by decide)) fun hclose => .of_closes hclose hcloser

end Grammar

namespace Parse

open Grammar

variable {bare : Bool} {tier level : Nat} {e : Expr} {ts t rest : Tokens} {rule : Rule Expr} {mark : Symbol}
  {loc : Location} {path : Path}

theorem bracketed_comes {α : Type} {inner : Routine α} {a : α} (h : inner.Comes true a ts rest) :
    (Routine.bracketed inner).Comes bare a ts rest :=
  .flag (.allow (.call h (.allow .result)))

theorem condition_comes (h : Routine.expr.Comes false e ts rest) : Routine.condition.Comes bare e ts rest :=
  .flag (.allow (.call h (.allow .result)))

theorem not_startsWith_of_init {init : FieldInit Expr} (h : Init rule init ts rest) : startsWith mark ts = false := by
  cases h with
  | mk hname => exact not_startsWith_of_identifier hname

theorem initFields_comes
    (hvalue : ∀ ⦃e ts rest⦄, rule e ts rest → EndsOperand true 1 rest → Routine.expr.Comes true e ts rest)
    {fields : List (FieldInit Expr)} {loc' : Location} {t' : Tokens} (hopen : Takes (.symbol .leftBrace) loc ts t)
    (hfields : Listed (Init rule) fields t t') (hclose : Takes (.symbol .rightBrace) loc' t' rest) :
    Routine.initFields.Comes bare fields ts rest := by
  have hfield ⦃init ts rest⦄ (h : Init rule init ts rest) (hend : EndsElement .rightBrace rest) :
      Routine.fieldInit.Comes true init ts rest := by
    cases h with
    | mk hname hcolon h =>
      exact .call (identifier_comes hname) (.call (symbol_comes hcolon)
        (.call (hvalue h (hend.endsOperand (by decide))) .result))
  exact .call (symbol_comes hopen) (.call (bracketed_comes (elements_comes (by decide)
    (fun _ _ _ => not_startsWith_of_init) hfield hfields (startsWith_of_takes hclose)))
    (.call (symbol_comes hclose) .result))

/-- An expression starts with no mark that cannot start one, such as those that close one. -/
theorem not_startsWith_of_expression (hmark : opensExpression (.symbol mark) = false)
    (h : Expression bare tier e ts rest) : startsWith mark ts = false := by
  rw [Bool.eq_false_iff]
  intro hstarts
  obtain ⟨token, t, rfl, hkind, _⟩ := h.starts
  obtain ⟨lexeme, loc, t', heq⟩ := startsWith_eq_true_iff.1 hstarts
  cases heq
  rw [hmark] at hkind
  cases hkind

/-- The parenthesis of the arguments opens no type arguments. -/
theorem not_opensTypeList_of_args {args : List Expr} {loc' : Location} {t' : Tokens}
    (hopen : Takes (.symbol .leftParen) loc ts t) (hargs : Listed (Expression true 1) args t t')
    (hclose : Takes (.symbol .rightParen) loc' t' rest) : opensTypeList ts = false := by
  cases hopen
  cases hargs with
  | none =>
    cases hclose
    rfl
  | some helements =>
    obtain ⟨e, t, hfirst⟩ := helements.first
    obtain ⟨⟨kind, lexeme, loc⟩, t, rfl, hkind, _⟩ := hfirst.starts
    unfold opensTypeList
    split
    · next heq => cases heq; cases hkind
    · rfl

theorem startsWith_leftParen_of_typeList {typeArgs : List TypeExpr} (htypes : TypeList Written typeArgs ts t)
    (hopen : Takes (.symbol .leftParen) loc t rest) : startsWith .leftParen ts = true := by
  cases htypes with
  | none => exact startsWith_of_takes hopen
  | some hparen => exact startsWith_of_takes hparen

/-- What follows an expression never turns its last path into something else. -/
theorem binding_comes (hroute : Route (loc, path) ts rest) (hstop : EndsOperand bare 7 rest) :
    Routine.leaf.Comes bare (.binding loc path) ts rest := by
  cases hroute with
  | mk hfirst hnames =>
    cases hfirst
    refine .look (.last (.look (.call (path_comes (.mk .mk hnames) hstop.path) (.look ?_))))
    split
    · cases hstop.call
    · refine .flag ?_
      cases bare with
      | true => cases hstop.init rfl
      | false => exact .result
    · cases hstop.field
    · exact .result

/-- What has no operator of its own starts with no operator. -/
theorem unary_of_leaf (h : Expression bare 7 e ts rest) (hleaf : Routine.leaf.Comes bare e ts rest) :
    Routine.unary.Comes bare e ts rest := by
  refine .look ?_
  cases h with
  | operand htier => omega
  | binary htier =>
    next op _ _ _ _ _ _ _ _ =>
    have := op.precedence_le
    omega
  | integer htakes | float htakes | string htakes | trueValue htakes | falseValue htakes | paren htakes
  | keywordInit htakes | field htakes =>
    cases htakes
    exact .last hleaf
  | bareInit hroute | call hroute | binding hroute =>
    cases hroute with
    | mk hfirst =>
      cases hfirst
      exact .last hleaf

-- The recursion is on the tree, and on the tier where a looser one passes on what a tighter one reads.
mutual

/-- What has no operator of its own is read as such. -/
theorem leaf_comes {bare : Bool} {e : Expr} {ts rest : Tokens} (h : Expression bare 7 e ts rest)
    (hstop : EndsOperand bare 7 rest) : Routine.leaf.Comes bare e ts rest := by
  cases h with
  | operand htier => omega
  | binary htier =>
    next op _ _ _ _ _ _ _ _ =>
    have := op.precedence_le
    omega
  | integer htakes | float htakes | string htakes | trueValue htakes | falseValue htakes =>
    cases htakes
    exact .look (.advance .result)
  | paren hopen hinner hclose =>
    cases hopen
    have hexpr : Routine.expr.Comes true _ _ _ :=
      tier_comes hinner rfl (.of_closes (startsWith_of_takes hclose) (by decide))
    exact .look (.advance (.call (bracketed_comes hexpr) (.call (symbol_comes hclose) .result)))
  | keywordInit hword hroute hopen hfields hclose =>
    cases hword
    have hinit : Routine.initFields.Comes bare _ _ rest :=
      initFields_comes (fun _ _ _ h => have := h.1; tier_comes h.2 rfl) hopen hfields.smallerValues hclose
    exact .look (.advance (.call (path_comes hroute (not_startsWith_of_takes hopen (by decide))) (.call hinit .result)))
  | bareInit hroute hopen hfields hclose =>
    have hinit : Routine.initFields.Comes true _ _ rest :=
      initFields_comes (fun _ _ _ h => have := h.1; tier_comes h.2 rfl) hopen hfields.smallerValues hclose
    cases hopen
    cases hroute with
    | mk hfirst hnames =>
      cases hfirst
      exact .look (.last (.look (.call (path_comes (.mk .mk hnames) rfl) (.look (.flag (.call hinit .result))))))
  | call hroute htypes hopen hargs hclose =>
    have htypeArgs : (Routine.typeList .type).Comes bare _ _ _ := typeList_comes
      (fun _ _ _ => Written.not_startsWith_rightParen) (fun _ _ _ h hend => type_comes h (hend.endsType (by decide)))
      htypes (not_opensTypeList_of_args hopen hargs hclose)
    have hexprs : (Routine.elements .rightParen .expr).Comes true _ _ _ := elements_comes (by decide)
      (fun _ _ _ h => not_startsWith_of_expression (by decide) h.2)
      (fun _ _ _ h hend => have := h.1; tier_comes h.2 rfl (hend.endsOperand (by decide))) hargs.smaller
      (startsWith_of_takes hclose)
    have hpath : Routine.path.Comes bare _ ts _ :=
      path_comes hroute (startsWith_of_typeList htypes (by decide) (not_startsWith_of_takes hopen (by decide)))
    obtain ⟨lexeme, loc', t, rfl⟩ := startsWith_eq_true_iff.1 (startsWith_leftParen_of_typeList htypes hopen)
    cases hroute with
    | mk hfirst hnames =>
      cases hfirst
      exact .look (.last (.look (.call hpath (.look (.call htypeArgs (.call (symbol_comes hopen)
        (.call (bracketed_comes hexprs) (.call (symbol_comes hclose) .result))))))))
  | field hroot hdot hname hnames =>
    have hfields : (Routine.names .dot .fieldName).Comes bare _ _ rest :=
      names_comes (.cons hdot hname hnames) hstop.field
    cases hdot
    cases hroot
    exact .look (.last (.look (.call (path_comes (.mk .mk .nil) rfl) (.look (.no rfl (.call hfields .result))))))
  | binding hroute => exact binding_comes hroute hstop
termination_by 16 * sizeOf e
decreasing_by all_goals (subst_vars; decreasing_tactic)

/-- Prefix operators are read from left to right. -/
theorem unary_comes {bare : Bool} {e : Expr} {ts rest : Tokens} (h : Expression bare 6 e ts rest)
    (hstop : EndsOperand bare 6 rest) : Routine.unary.Comes bare e ts rest := by
  cases h with
  | operand _ h => exact unary_of_leaf h (leaf_comes h (hstop.mono (by omega)))
  | binary htier =>
    next op _ _ _ _ _ _ _ _ =>
    have := op.precedence_le
    omega
  | unary htakes h =>
    next op e loc t =>
    have hoperand := unary_comes h hstop
    cases htakes
    cases op <;> exact .look (.advance (.call hoperand .result))
  | twoReferences htakes h =>
    cases htakes
    exact .look (.advance (.call (unary_comes h hstop) .result))
termination_by 16 * sizeOf e + 1
decreasing_by all_goals (subst_vars; decreasing_tactic)

/-- A tier of binary operators is read as the rules group it. -/
theorem tier_comes {bare : Bool} {tier level : Nat} {e : Expr} {ts rest : Tokens} (h : Expression bare tier e ts rest)
    (hlevel : tier + level = 6) (hstop : EndsOperand bare tier rest) : (Routine.tier level).Comes bare e ts rest := by
  cases level with
  | zero =>
    subst hlevel
    exact .last (unary_comes h hstop)
  | succ level =>
    have hnone : (Routine.extend level e).Comes bare none rest rest := by
      refine .look ?_
      rw [hstop.operator (5 - level) (by omega)]
      exact .result
    exact chain_comes h hlevel (hstop.mono (by omega)) (.call hnone .result)
termination_by 16 * sizeOf e + 2 * level + 2
decreasing_by all_goals (subst_vars; decreasing_tactic)

/-- A tier read up to some point is a state of the loop there. -/
theorem chain_comes {bare : Bool} {tier level : Nat} {e : Expr} {ts t : Tokens} {x : Reading (Expr × Stand)}
    (h : Expression bare tier e ts t) (hlevel : tier + (level + 1) = 6) (hstop : EndsOperand bare (tier + 1) t)
    (hrun : (Routine.chain level e).plan.Run ⟨t, bare⟩ x) : (Routine.tier (level + 1)).plan.Run ⟨ts, bare⟩ x := by
  cases h with
  | operand _ h => exact .call (tier_comes h (by omega) hstop) (.last hrun)
  | @binary _ _ op left right _ _ t₁ _ _ hprecedence hleft htakes hright =>
    have hsome : (Routine.extend level left).Comes bare (some (.binary left.loc op left right)) t₁ t := by
      refine .look ?_
      rw [binaryOp?_eq_some_iff.2 ⟨by omega, _, htakes⟩]
      cases htakes
      exact .advance (.call (tier_comes hright (by omega) hstop) .result)
    exact chain_comes hleft hlevel (.of_operator htakes (by omega)) (.call hsome (.last hrun))
  | _ => omega
termination_by 16 * sizeOf e + 2 * level + 3
decreasing_by all_goals (subst_vars; decreasing_tactic)

end

/-- What is an expression by the rules is read as that expression, if nothing that follows continues it. -/
theorem expr_comes (h : Expression bare 1 e ts rest) (hstop : EndsOperand bare 1 rest) :
    Routine.expr.Comes bare e ts rest :=
  tier_comes h rfl hstop

end Parse

end Smpl
