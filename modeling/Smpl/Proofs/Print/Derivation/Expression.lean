import Smpl.Proofs.Print.Spelled

namespace Smpl

open Grammar

section

variable {types types' : List TypeExpr} {exprs exprs' : List Expr} {inits inits' : List (FieldInit Expr)}

theorem sameTypes_of_forall₂ (h : List.Forall₂ (fun type type' => type.same type' = true) types types') :
    sameTypes types types' = true := by
  induction h with
  | nil => rfl
  | cons hfirst _ ih => rw [sameTypes, hfirst, ih, Bool.and_self]

theorem sameExprs_of_forall₂ (h : List.Forall₂ (fun e e' => (e.grouped 0).same e' = true) exprs exprs') :
    sameExprs (groupedExprs exprs) exprs' = true := by
  induction h with
  | nil => rfl
  | cons hfirst _ ih => rw [groupedExprs, sameExprs, hfirst, ih, Bool.and_self]

theorem sameInits_of_forall₂
    (h : List.Forall₂ (fun init init' => init.name = init'.name ∧ (init.value.grouped 0).same init'.value = true)
      inits inits') : sameInits (groupedInits inits) inits' = true := by
  induction h with
  | nil => rfl
  | cons hfirst _ ih => simp [groupedInits, sameInits, hfirst, ih]

end

variable {ts rest : Tokens}

theorem result_of_spelled {result : Option TypeExpr} (h : ∀ type ∈ result, ∀ ⦃ts rest⦄, Spelled type.kinds ts rest →
      ∃ type', Written type' ts rest ∧ type.same type' = true) (hspelled : Spelled (resultKinds result) ts rest) :
    ∃ result', Arrow Written result' ts rest ∧ sameType? result result' = true := by
  cases result with
  | none =>
    rw [spelled_nil_iff.1 hspelled]
    exact ⟨none, .none, rfl⟩
  | some type =>
    simp only [resultKinds, spelled_cons_iff] at hspelled
    obtain ⟨_, _, harrow, htype⟩ := hspelled
    obtain ⟨type', htype', hsame⟩ := h type rfl htype
    exact ⟨some type', .some harrow htype', hsame⟩

/-- The tokens of a written type derive it. -/
theorem TypeExpr.Spellable.derives {type : TypeExpr} (h : type.Spellable) (hspelled : Spelled type.kinds ts rest) :
    ∃ type', Written type' ts rest ∧ type.same type' = true := by
  induction h generalizing ts rest with
  | named hpath _ ih =>
    simp only [TypeExpr.kinds, typesKinds_eq_map, spelled_append_iff] at hspelled
    obtain ⟨t, hroute, hargs⟩ := hspelled
    obtain ⟨loc, hroute⟩ := route_of_spelled hpath hroute
    obtain ⟨args', hargs', hsame⟩ := typeList_of_spelled (fun type htype _ _ => ih type htype) hargs
    exact ⟨.named loc _ args', .named hroute hargs', by simp [TypeExpr.same, sameTypes_of_forall₂ hsame]⟩
  | @array _ _ length _ hpos _ ih =>
    simp only [TypeExpr.kinds, List.cons_append, spelled_append_iff, spelled_cons_iff, spelled_nil_iff] at hspelled
    obtain ⟨loc, _, hopen, _, helement, _, _, hsemicolon, _, _, hlength, _, _, hclose, rfl⟩ := hspelled
    obtain ⟨element', helement', hsame⟩ := ih helement
    refine ⟨.array loc element' length.toNat, .array hopen helement' hsemicolon hlength (by omega) hclose, ?_⟩
    simp [TypeExpr.same, hsame]
    omega
  | function _ _ ihparams ihresult =>
    simp only [TypeExpr.kinds, typesKinds_eq_map, List.cons_append, spelled_append_iff, spelled_cons_iff] at hspelled
    obtain ⟨loc, _, hword, _, _, hopen, _, hparams, _, _, hclose, hresult⟩ := hspelled
    obtain ⟨params', hparams', hsame⟩ := listed_of_spelled (fun type htype _ _ => ihparams type htype) hparams
    obtain ⟨result', hresult', hsame'⟩ := result_of_spelled (fun type htype _ _ => ihresult type htype) hresult
    exact ⟨.function loc params' result', .function hword hopen hparams' hclose hresult',
      by simp [TypeExpr.same, sameTypes_of_forall₂ hsame, hsame']⟩

theorem Grammar.Init.of_spelled {init : FieldInit Expr} (h : ∀ ⦃ts rest⦄, Spelled (init.value.kinds 0) ts rest →
      ∃ e', Expression true 1 e' ts rest ∧ (init.value.grouped 0).same e' = true)
    (hspelled : Spelled init.kinds ts rest) :
    ∃ init', Init (Expression true 1) init' ts rest ∧
      init.name = init'.name ∧ (init.value.grouped 0).same init'.value = true := by
  simp only [FieldInit.kinds, spelled_cons_iff] at hspelled
  obtain ⟨loc, _, hname, _, _, hcolon, hvalue⟩ := hspelled
  obtain ⟨value', hvalue', hsame⟩ := h hvalue
  exact ⟨⟨loc, init.name, value'⟩, .mk hname hcolon hvalue', rfl, hsame⟩

/-- The token of a literal derives it. -/
theorem Literal.derives {value : Literal} (h : value.isSpellable = true) (bare : Bool)
    (hspelled : Spelled [value.token] ts rest) : ∃ loc, Expression bare 7 (.literal loc value) ts rest := by
  simp only [spelled_cons_iff, spelled_nil_iff] at hspelled
  obtain ⟨loc, _, htakes, rfl⟩ := hspelled
  refine ⟨loc, ?_⟩
  cases value with
  | integer value =>
    simp only [Literal.isSpellable, Bool.and_eq_true, decide_eq_true_eq] at h
    obtain ⟨n, rfl⟩ := Int.eq_ofNat_of_zero_le h.1
    exact .integer htakes
  | float value => exact .float htakes
  | bool value =>
    cases value
    · exact .falseValue htakes
    · exact .trueValue htakes
  | string value => exact .string htakes

/-- The tokens of an expression derive it with the parentheses that were added. Its tier is at least
    what the context needs. -/
theorem Expr.Spellable.derives {e : Expr} (h : e.Spellable) (bare : Bool) {needed tier : Nat} (hneeded : needed ≤ 6)
    (htier : tier ≤ max 1 needed) (hspelled : Spelled (e.kinds needed) ts rest) :
    ∃ e', Expression bare tier e' ts rest ∧ (e.grouped needed).same e' = true := by
  induction h generalizing bare needed tier ts rest with
  | literal hvalue =>
    obtain ⟨loc, hliteral⟩ := Literal.derives hvalue bare hspelled
    exact ⟨_, hliteral.lower (by omega) (by omega), by simp [Expr.grouped, Expr.same]⟩
  | binding hpath =>
    obtain ⟨loc, hroute⟩ := route_of_spelled hpath hspelled
    exact ⟨_, (Expression.binding hroute).lower (by omega) (by omega), by simp [Expr.grouped, Expr.same]⟩
  | field _ hne _ =>
    obtain ⟨loc, t, hroot, hnames⟩ := names_of_spelled hspelled
    cases hnames with
    | nil => exact absurd rfl hne
    | cons hdot hname hnames =>
      exact ⟨_, (Expression.field hroot hdot hname hnames).lower (by omega) (by omega),
        by simp [Expr.grouped, Expr.same]⟩
  | call hcallee htypes _ ih =>
    simp only [Expr.kinds, typesKinds_eq_map, exprsKinds_eq_map, spelled_append_iff, spelled_enclosed_iff] at hspelled
    obtain ⟨_, ⟨_, hroute, htypeArgs⟩, _, _, hopen, _, hargs, _, hclose⟩ := hspelled
    obtain ⟨loc, hroute⟩ := route_of_spelled hcallee hroute
    obtain ⟨typeArgs', htypeArgs', hsame⟩ :=
      typeList_of_spelled (fun type htype _ _ => (htypes type htype).derives) htypeArgs
    obtain ⟨args', hargs', hsame'⟩ :=
      listed_of_spelled (fun e he _ _ => ih e he true (Nat.zero_le _) (Nat.le_refl 1)) hargs
    exact ⟨_, (Expression.call hroute htypeArgs' hopen hargs' hclose).lower (by omega) (by omega),
      by simp [Expr.grouped, Expr.same, sameTypes_of_forall₂ hsame, sameExprs_of_forall₂ hsame']⟩
  | init hstruct _ _ ih =>
    simp only [Expr.kinds, initsKinds_eq_map, List.cons_append, List.append_assoc, spelled_append_iff,
      spelled_cons_iff, spelled_nil_iff] at hspelled
    obtain ⟨loc, _, hword, _, hroute, _, _, hopen, _, hfields, _, _, hclose, rfl⟩ := hspelled
    obtain ⟨_, hroute⟩ := route_of_spelled hstruct hroute
    obtain ⟨fields', hfields', hsame⟩ := listed_of_spelled (fun init hinit _ _ =>
      Init.of_spelled fun _ _ => ih init hinit true (Nat.zero_le _) (Nat.le_refl 1)) hfields
    exact ⟨_, (Expression.keywordInit hword hroute hopen hfields' hclose).lower (by omega) (by omega),
      by simp [Expr.grouped, Expr.same, sameInits_of_forall₂ hsame]⟩
  | unary _ ih =>
    simp only [Expr.kinds, spelled_cons_iff] at hspelled
    obtain ⟨loc, _, hop, hoperand⟩ := hspelled
    obtain ⟨e', he', hsame⟩ := ih bare (Nat.le_refl 6) (Nat.le_refl 6) hoperand
    exact ⟨_, (Expression.unary hop he').lower (by omega) (by omega),
      by simpa [Expr.grouped, Expr.same, UnaryOp.precedence] using hsame⟩
  | @binary loc op left right _ _ ihleft ihright =>
    have hpos := op.precedence_pos
    have hmax := op.precedence_le
    have hboth : ∀ (bare : Bool) {ts rest : Tokens},
        Spelled (left.kinds op.precedence ++ .symbol op.symbol :: right.kinds (op.precedence + 1)) ts rest →
        ∃ e', Expression bare op.precedence e' ts rest ∧
          (Expr.binary loc op (left.grouped op.precedence) (right.grouped (op.precedence + 1))).same e' = true := by
      intro bare ts rest hspelled
      simp only [spelled_append_iff, spelled_cons_iff] at hspelled
      obtain ⟨_, hleft, _, _, hop, hright⟩ := hspelled
      obtain ⟨left', hleft', hsame⟩ := ihleft bare (by omega) (Nat.le_max_right 1 _) hleft
      obtain ⟨right', hright', hsame'⟩ := ihright bare (by omega) (Nat.le_max_right 1 _) hright
      exact ⟨_, .binary rfl hleft' hop hright', by simp [Expr.same, hsame, hsame']⟩
    by_cases hlt : op.precedence < needed
    · simp only [Expr.kinds, hlt, if_true, spelled_enclosed_iff] at hspelled
      obtain ⟨loc, _, hopen, _, hinner, _, hclose⟩ := hspelled
      obtain ⟨e', he', hsame⟩ := hboth true hinner
      exact ⟨_, (Expression.paren hopen (he'.lower hpos (by omega)) hclose).lower (by omega) (by omega),
        by simp only [Expr.grouped, hlt, if_true]; exact hsame⟩
    · simp only [Expr.kinds, hlt, if_false] at hspelled
      obtain ⟨e', he', hsame⟩ := hboth bare hspelled
      exact ⟨e', he'.lower (by omega) (by omega), by simpa [Expr.grouped, hlt] using hsame⟩
  | paren _ ih =>
    simp only [Expr.kinds, spelled_enclosed_iff] at hspelled
    obtain ⟨loc, _, hopen, _, hinner, _, hclose⟩ := hspelled
    obtain ⟨e', he', hsame⟩ := ih true (Nat.zero_le _) (Nat.le_refl 1) hinner
    exact ⟨_, (Expression.paren hopen he' hclose).lower (by omega) (by omega), by simp [Expr.grouped, Expr.same, hsame]⟩

end Smpl
