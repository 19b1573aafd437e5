import Smpl.Proofs.Print.Text

namespace Smpl

open List

section

variable {α : Type} {print : α → Except Failure String} {kinds : α → List TokenKind} {as : List α}

theorem exists_texts (h : ∀ a ∈ as, ∃ text, print a = .ok text ∧ Spells text (kinds a)) :
    ∃ texts, as.mapM print = .ok texts ∧ Forall₂ Spells texts (as.map kinds) := by
  obtain ⟨texts, htexts, hspells⟩ := exists_mapM_eq_ok h
  refine ⟨texts, htexts, ?_⟩
  rw [forall₂_map_right_iff]
  exact hspells.flip

end

variable {text : String} {c : Char} {t : List Char} {value : Literal} {kinds : List TokenKind}

theorem printTypes_eq_mapM (types : List TypeExpr) : printTypes types = types.mapM TypeExpr.print :=
  eq_mapM_of_cons rfl fun _ _ => rfl

theorem printExprs_eq_mapM (exprs : List Expr) : printExprs exprs = exprs.mapM (Expr.print 0) :=
  eq_mapM_of_cons rfl fun _ _ => rfl

/-- The canonical text of a field with its value. -/
def FieldInit.print (init : FieldInit Expr) : Except Failure String := do
  let text ← init.value.print 0
  return init.name ++ ": " ++ text

theorem printInits_eq_mapM (inits : List (FieldInit Expr)) : printInits inits = inits.mapM FieldInit.print := by
  induction inits with
  | nil => rfl
  | cons init inits ih =>
    rw [printInits, ih, mapM_cons, FieldInit.print]
    cases init.value.print 0 <;> rfl

/-- An arrow and a result type, which may be absent. -/
theorem printResult_spells {result : Option TypeExpr}
    (h : ∀ type ∈ result, ∃ text, type.print = .ok text ∧ Spells text type.kinds) :
    ∃ text, printResult result = .ok text ∧ Spells text (resultKinds result) := by
  cases result with
  | none => exact ⟨"", rfl, fun _ _ hks _ => hks⟩
  | some type =>
    obtain ⟨text, htext, hspells⟩ := h type rfl
    refine ⟨" -> " ++ text, by simp [printResult, htext], fun rest ks hks hrest => ?_⟩
    have harrow := (Lexes.symbol .arrow (hspells hks hrest).space (.cons rfl)).space
    simpa [resultKinds, Symbol.spelling] using harrow

/-- The canonical text of a type spells its tokens. -/
theorem TypeExpr.Spellable.spells {type : TypeExpr} (h : type.Spellable) :
    ∃ text, type.print = .ok text ∧ Spells text type.kinds := by
  induction h with
  | @named loc path args hpath _ ih =>
    obtain ⟨texts, htexts, hspells⟩ := exists_texts ih
    refine ⟨path.text ++ typeListText texts, by simp [TypeExpr.print, printTypes_eq_mapM, htexts],
      fun rest ks hks hrest => ?_⟩
    have hlist := typeListText_lexes hspells hks
    have hnamed := Lexes.path hpath hlist (typeListText_ends hrest.identifier)
    simpa [TypeExpr.kinds, typesKinds_eq_map] using hnamed
  | @array loc element length _ hpos hmax ih =>
    obtain ⟨text, htext, hspells⟩ := ih
    refine ⟨"[" ++ text ++ "; " ++ toString length ++ "]", by simp [TypeExpr.print, htext],
      fun rest ks hks hrest => ?_⟩
    have hclose := Lexes.symbol .rightBracket hks (fun _ _ _ => rfl)
    obtain ⟨n, rfl⟩ := Int.eq_ofNat_of_zero_le (Int.le_of_lt hpos)
    have hlength := Lexes.integer (Int.ofNat_le.1 hmax) hclose (.cons rfl)
    have hsemicolon := Lexes.symbol .semicolon hlength.space (fun _ _ _ => rfl)
    have hopen := Lexes.symbol .leftBracket (hspells hsemicolon (.cons rfl)) (fun _ _ _ => rfl)
    simpa [TypeExpr.kinds, Symbol.spelling, toList_repr_natCast] using hopen
  | @function loc params result _ _ ihparams ihresult =>
    obtain ⟨texts, htexts, hspells⟩ := exists_texts ihparams
    obtain ⟨text, htext, hresult⟩ := printResult_spells ihresult
    refine ⟨"fn(" ++ commaSeparated texts ++ ")" ++ text,
      by simp [TypeExpr.print, printTypes_eq_mapM, htexts, htext], fun rest ks hks hrest => ?_⟩
    have hclose := Lexes.symbol .rightParen (hresult hks hrest) (fun _ _ _ => rfl)
    have hparams := commaSeparated_spells hspells hclose (.cons rfl)
    have hopen := Lexes.symbol .leftParen hparams (fun _ _ _ => rfl)
    have hword := Lexes.keyword .fn hopen (.cons rfl)
    simpa [TypeExpr.kinds, typesKinds_eq_map, Symbol.spelling, Keyword.spelling] using hword

/-- A text that starts with nothing that joins a prefix operator other than itself. -/
def OpensOperand (text : String) : Prop :=
  ∃ c t, text.toList = c :: t ∧ c ≠ '=' ∧ c ≠ '>'

theorem OpensOperand.append (h : OpensOperand text) (other : String) : OpensOperand (text ++ other) := by
  obtain ⟨c, t, htext, hc⟩ := h
  exact ⟨c, t ++ other.toList, by rw [String.toList_append, htext, cons_append], hc⟩

theorem OpensOperand.of_isIdentifierStart (htext : text.toList = c :: t) (hc : isIdentifierStart c = true) :
    OpensOperand text := by
  refine ⟨c, t, htext, ?_, ?_⟩ <;>
  · rintro rfl
    cases hc

theorem OpensOperand.of_isName (h : isName text = true) : OpensOperand text := by
  unfold isName at h
  split at h
  · cases h
  · next htext =>
    simp only [Bool.and_eq_true] at h
    exact .of_isIdentifierStart htext h.1.1

theorem OpensOperand.intercalate {separator first : String} {others : List String} (h : OpensOperand first) :
    OpensOperand (separator.intercalate (first :: others)) := by
  cases others with
  | nil => simpa using h
  | cons next others =>
    have hsplit : separator.intercalate (first :: next :: others) =
        first ++ (separator ++ separator.intercalate (next :: others)) := by
      rw [← String.toList_inj]
      simp [String.toList_intercalate]
    rw [hsplit]
    exact h.append _

theorem OpensOperand.path {path : Path} (h : path.isSpellable = true) : OpensOperand path.text := by
  obtain ⟨first, others, hsegments⟩ : ∃ first others, path.segments = first :: others :=
    exists_cons_of_ne_nil (by simp [Path.segments])
  rw [Path.isSpellable_iff, hsegments] at h
  rw [Path.text, hsegments]
  exact (OpensOperand.of_isName (h.2 first mem_cons_self)).intercalate

theorem OpensOperand.of_isDigit (htext : text.toList = c :: t) (hc : c.isDigit = true) : OpensOperand text := by
  refine ⟨c, t, htext, ?_, ?_⟩ <;>
  · rintro rfl
    cases hc

/-- No literal starts with a prefix operator. -/
theorem OpensOperand.literal (h : value.isSpellable = true) : OpensOperand value.print := by
  cases value with
  | integer value =>
    simp only [Literal.isSpellable, Bool.and_eq_true, decide_eq_true_eq] at h
    obtain ⟨n, rfl⟩ := Int.eq_ofNat_of_zero_le h.1
    obtain ⟨c, t, hdigits⟩ := exists_cons_of_ne_nil (Nat.toDigits_ne_nil (n := n) (b := 10))
    have hmem : c ∈ Nat.toDigits 10 n := hdigits ▸ mem_cons_self
    exact .of_isDigit ((toList_repr_natCast n).trans hdigits) (Decimal.isDigit_toDigits c hmem)
  | float value =>
    simp only [Literal.isSpellable, Double.isSpellable, Bool.and_eq_true, Bool.not_eq_true'] at h
    obtain ⟨whole, fraction, htext, hwhole, _, hdigits, _⟩ := Double.literal_isText h.1 h.2
    obtain ⟨c, t, rfl⟩ := exists_cons_of_ne_nil hwhole
    exact .of_isDigit htext (hdigits c mem_cons_self)
  | bool value => cases value <;> exact ⟨_, _, rfl, by decide, by decide⟩
  | string value => exact ⟨'"', _, String.toList_ofList, by decide, by decide⟩

theorem OpensOperand.unaryText (op : UnaryOp) (operand : String) : OpensOperand (Smpl.unaryText op operand) := by
  have hop : OpensOperand op.spelling := by
    cases op <;> refine ⟨_, _, rfl, ?_, ?_⟩ <;> decide
  unfold Smpl.unaryText
  split
  · exact (hop.append _).append _
  · exact hop.append _

theorem OpensOperand.paren (text : String) : OpensOperand ("(" ++ text ++ ")") := by
  have hparen : OpensOperand "(" := ⟨'(', [], rfl, by decide, by decide⟩
  exact (hparen.append _).append _

theorem UnaryOp.eq_of_joins {op : UnaryOp} (h : op.symbol.joins c = true) :
    c = '=' ∨ c = '>' ∨ op.spelling.toList = [c] := by
  cases op <;> unfold UnaryOp.symbol Symbol.joins at h <;> split at h <;>
    simp_all [UnaryOp.spelling, UnaryOp.symbol, Symbol.spelling]

/-- The canonical text of a literal spells its token. -/
theorem Literal.spells (h : value.isSpellable = true) : Spells value.print [value.token] := by
  intro rest ks hks hrest
  cases value with
  | integer value =>
    simp only [Literal.isSpellable, Bool.and_eq_true, decide_eq_true_eq] at h
    obtain ⟨n, rfl⟩ := Int.eq_ofNat_of_zero_le h.1
    have hinteger := Lexes.integer (Int.ofNat_le.1 h.2) hks hrest.number
    simpa [Literal.print, Literal.token, toList_repr_natCast] using hinteger
  | float value =>
    exact Lexes.float h hks (hrest.number.mono fun c hc => (Bool.or_eq_false_iff.1 hc).1)
  | bool value =>
    cases value
    · exact Lexes.keyword .falseValue hks hrest.identifier
    · exact Lexes.keyword .trueValue hks hrest.identifier
  | string value => exact Lexes.string value hks

/-- A blank stands between a prefix operator and an operand that starts with it, so the two are never
    read as one mark. -/
theorem unaryText_spells (op : UnaryOp) {operand : String} (hopens : OpensOperand operand)
    (hspells : Spells operand kinds) : Spells (unaryText op operand) (.symbol op.symbol :: kinds) := by
  intro rest ks hks hrest
  have hoperand := hspells hks hrest
  unfold unaryText
  split
  · have hmark := Lexes.symbol op.symbol hoperand.space (.cons (by cases op <;> rfl))
    simpa [UnaryOp.spelling] using hmark
  · next hprefix =>
    obtain ⟨c, t, htext, hequal, hgreater⟩ := hopens
    have hjoins : op.symbol.joins c = false := by
      rw [Bool.eq_false_iff]
      intro hjoins
      obtain heq | heq | heq := UnaryOp.eq_of_joins hjoins
      · exact hequal heq
      · exact hgreater heq
      · simp [heq, htext] at hprefix
    have hmark := Lexes.symbol op.symbol hoperand (by rw [htext]; exact .cons hjoins)
    simpa [UnaryOp.spelling] using hmark

theorem enclosed_spells (h : Spells text kinds) : Spells ("(" ++ text ++ ")") (enclosed kinds) := by
  intro rest ks hks _
  have hclose := Lexes.symbol .rightParen hks (fun _ _ _ => rfl)
  have hopen := Lexes.symbol .leftParen (h hclose (.cons rfl)) (fun _ _ _ => rfl)
  simpa [enclosed, Symbol.spelling] using hopen

/-- Blanks around a binary operator keep it apart from its operands. -/
theorem binary_spells (op : BinaryOp) {left right : String} {leftKinds rightKinds : List TokenKind}
    (hleft : Spells left leftKinds) (hright : Spells right rightKinds) :
    Spells (left ++ " " ++ op.spelling ++ " " ++ right) (leftKinds ++ .symbol op.symbol :: rightKinds) := by
  intro rest ks hks hrest
  have hmark := Lexes.symbol op.symbol (hright hks hrest).space (.cons (by cases op <;> rfl))
  have hboth := hleft hmark.space (.cons rfl)
  simpa [BinaryOp.spelling] using hboth

theorem init_spells {init : FieldInit Expr} (hname : isName init.name = true)
    (h : ∃ text, init.value.print 0 = .ok text ∧ Spells text (init.value.kinds 0)) :
    ∃ text, init.print = .ok text ∧ Spells text init.kinds := by
  obtain ⟨text, htext, hspells⟩ := h
  refine ⟨init.name ++ ": " ++ text, by simp [FieldInit.print, htext], fun rest ks hks hrest => ?_⟩
  have hcolon := Lexes.symbol .colon (hspells hks hrest).space (.cons rfl)
  have hinit := Lexes.identifier hname hcolon (.cons rfl)
  simpa [FieldInit.kinds, Symbol.spelling] using hinit

/-- The canonical text of a struct initializer. -/
def initText (struct : Path) (fields : List String) : String :=
  if fields.isEmpty then "init " ++ struct.text ++ " \x7b\x7d"
  else "init " ++ struct.text ++ " \x7b " ++ commaSeparated fields ++ " \x7d"

theorem initText_spells {struct : Path} (hstruct : struct.isSpellable = true) {texts : List String}
    {kss : List (List TokenKind)} (h : List.Forall₂ Spells texts kss) :
    Spells (initText struct texts)
      (.keyword .init :: struct.kinds ++ .symbol .leftBrace :: commaKinds kss ++ [.symbol .rightBrace]) := by
  intro rest ks hks _
  have hclose := Lexes.symbol .rightBrace hks (fun _ _ _ => rfl)
  cases h with
  | nil =>
    have hopen := Lexes.symbol .leftBrace hclose (fun _ _ _ => rfl)
    have hpath := Lexes.path hstruct hopen.space (.cons rfl)
    have hword := Lexes.keyword .init hpath.space (.cons rfl)
    simpa [initText, commaKinds, Symbol.spelling, Keyword.spelling] using hword
  | cons hfirst hothers =>
    have hlist := commaSeparated_spells (.cons hfirst hothers) hclose.space (.cons rfl)
    have hopen := Lexes.symbol .leftBrace hlist.space (fun _ _ _ => rfl)
    have hpath := Lexes.path hstruct hopen.space (.cons rfl)
    have hword := Lexes.keyword .init hpath.space (.cons rfl)
    simpa [initText, Symbol.spelling, Keyword.spelling] using hword

theorem OpensOperand.initText (struct : Path) (fields : List String) : OpensOperand (initText struct fields) := by
  have hword : OpensOperand "init " := ⟨'i', "nit ".toList, rfl, by decide, by decide⟩
  unfold Smpl.initText
  split
  · exact (hword.append _).append _
  · exact (((hword.append _).append _).append _).append _

/-- The canonical text of an expression spells its tokens, whatever binds around it. -/
theorem Expr.Spellable.spells {e : Expr} (h : e.Spellable) (needed : Nat) :
    ∃ text, e.print needed = .ok text ∧ Spells text (e.kinds needed) ∧ OpensOperand text := by
  induction h generalizing needed with
  | @literal loc value hvalue =>
    exact ⟨value.print, rfl, Literal.spells hvalue, .literal hvalue⟩
  | @binding loc path hpath =>
    exact ⟨path.text, rfl, fun _ _ hks hrest => Lexes.path hpath hks hrest.identifier, .path hpath⟩
  | @field loc root fields hroot hne hfields =>
    exact ⟨chainText root fields, rfl, fun _ _ hks hrest => Lexes.fields hroot hfields hks hrest.identifier,
      (OpensOperand.of_isName hroot).intercalate⟩
  | @call loc callee typeArgs args hcallee htypes _ ih =>
    have hargs : ∀ e ∈ args, ∃ text, e.print 0 = .ok text ∧ Spells text (e.kinds 0) :=
      fun e he => (ih e he 0).imp fun _ h => ⟨h.1, h.2.1⟩
    obtain ⟨types, htypes', hspells⟩ := exists_texts fun type htype => (htypes type htype).spells
    obtain ⟨texts, htexts, hspells'⟩ := exists_texts hargs
    refine ⟨callee.text ++ typeListText types ++ "(" ++ commaSeparated texts ++ ")",
      by simp [Expr.print, printTypes_eq_mapM, htypes', printExprs_eq_mapM, htexts], fun rest ks hks hrest => ?_, ?_⟩
    · have hparens := enclosed_spells (commaSeparated_spells hspells') hks hrest
      have hlist := typeListText_lexes hspells hparens
      have hcall := Lexes.path hcallee hlist (typeListText_ends (by simpa using Ends.cons rfl))
      simpa [Expr.kinds, typesKinds_eq_map, exprsKinds_eq_map, List.append_assoc] using hcall
    · exact ((((OpensOperand.path hcallee).append _).append _).append _).append _
  | @init loc struct fields hstruct hnames _ ih =>
    have hinits : ∀ init ∈ fields, ∃ text, init.print = .ok text ∧ Spells text init.kinds := fun init hinit =>
      init_spells (hnames init hinit) ((ih init hinit 0).imp fun _ h => ⟨h.1, h.2.1⟩)
    obtain ⟨texts, htexts, hspells⟩ := exists_texts hinits
    refine ⟨initText struct texts, by simp [Expr.print, printInits_eq_mapM, htexts, initText], ?_,
      .initText struct texts⟩
    simpa [Expr.kinds, initsKinds_eq_map] using initText_spells hstruct hspells
  | @unary loc op operand _ ih =>
    obtain ⟨text, htext, hspells, hopens⟩ := ih UnaryOp.precedence
    exact ⟨unaryText op text, by simp [Expr.print, htext], unaryText_spells op hopens hspells, .unaryText op text⟩
  | @binary loc op left right _ _ ihleft ihright =>
    obtain ⟨text, htext, hspells, hopens⟩ := ihleft op.precedence
    obtain ⟨text', htext', hspells', _⟩ := ihright (op.precedence + 1)
    have hboth := binary_spells op hspells hspells'
    by_cases hlt : op.precedence < needed
    · refine ⟨"(" ++ (text ++ " " ++ op.spelling ++ " " ++ text') ++ ")", ?_, ?_, .paren _⟩
      · simp_all [Expr.print]
      · simpa [Expr.kinds, hlt] using enclosed_spells hboth
    · refine ⟨text ++ " " ++ op.spelling ++ " " ++ text', ?_, ?_, (((hopens.append _).append _).append _).append _⟩
      · simp_all [Expr.print]
      · simpa [Expr.kinds, hlt] using hboth
  | @paren loc inner _ ih =>
    obtain ⟨text, htext, hspells, _⟩ := ih 0
    have htext : inner.print 0 = .ok text := htext
    exact ⟨"(" ++ text ++ ")", by simp [Expr.print, htext], enclosed_spells hspells, .paren text⟩

end Smpl
