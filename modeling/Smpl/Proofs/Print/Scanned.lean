import Smpl.Proofs.Double.Rounding
import Smpl.Proofs.Print.Spellable

namespace Smpl

theorem Double.isSpellable_ofDigits {whole fraction : List Char}
    (h : (Double.ofDigits whole fraction).isInfinite = false) :
    (Double.ofDigits whole fraction).isSpellable = true := by
  obtain ⟨n, d, heq⟩ : ∃ n d, Double.ofDigits whole fraction = Double.ofRatio n d := by
    unfold Double.ofDigits Double.ofDecimal
    split
    · exact ⟨_, _, rfl⟩
    · exact ⟨_, _, rfl⟩
  rw [heq] at h ⊢
  obtain ⟨hfinite, hsign⟩ := Double.ofRatio_isFinite h
  simp [Double.isSpellable, hfinite, hsign]

namespace Piece

variable {kind : TokenKind} {lexeme : List Char} {c : Char} {whole rest : List Char}

theorem isSpellable_of_ofIdentifier {more : List Char} (hstart : isIdentifierStart c = true)
    (hmore : more.all isIdentifierPart = true) (h : ofIdentifier (c :: more) = .token kind lexeme) :
    kind.isSpellable = true := by
  unfold ofIdentifier at h
  dsimp only at h
  split at h
  · cases h
    rfl
  · next hword =>
    cases h
    simp only [TokenKind.isSpellable, isName, String.toList_ofList, hstart, hmore, hword]
    rfl

theorem isSpellable_of_ofInteger {digits : List Char} (h : ofInteger digits = .token kind lexeme) :
    kind.isSpellable = true := by
  unfold ofInteger at h
  split at h
  · cases h
  · dsimp only at h
    split at h
    · next hrange =>
      cases h
      exact decide_eq_true hrange
    · cases h

theorem isSpellable_of_ofFloat {fraction : List Char} (h : ofFloat whole fraction = .token kind lexeme) :
    kind.isSpellable = true := by
  unfold ofFloat at h
  dsimp only at h
  split at h
  · cases h
  · next hrange =>
    cases h
    exact Double.isSpellable_ofDigits (Bool.eq_false_iff.2 hrange)

theorem isSpellable_of_ofNumber (h : ofNumber whole rest = .token kind lexeme) : kind.isSpellable = true := by
  unfold ofNumber at h
  split at h
  · split at h
    · exact isSpellable_of_ofFloat h
    · exact isSpellable_of_ofInteger h
  · exact isSpellable_of_ofInteger h

theorem isSpellable_of_ofString (h : ofString rest = .token kind lexeme) : kind.isSpellable = true := by
  unfold ofString at h
  split at h <;> cases h
  rfl

theorem isSpellable_of_ofSymbol (h : ofSymbol c rest = .token kind lexeme) : kind.isSpellable = true := by
  unfold ofSymbol at h
  split at h
  · cases h
    rfl
  · split at h <;> cases h
    rfl

/-- Every token that is read has a kind that the canonical text can spell. -/
theorem isSpellable_of_scan (h : scan c rest = .token kind lexeme) : kind.isSpellable = true := by
  unfold scan at h
  split at h
  · cases h
  split at h
  · next hstart => exact isSpellable_of_ofIdentifier hstart List.all_takeWhile h
  split at h
  · exact isSpellable_of_ofNumber h
  split at h
  · exact isSpellable_of_ofString h
  · cases h
  · split at h <;> cases h
  · exact isSpellable_of_ofSymbol h

end Piece

theorem isSpellable_of_mem_lexFrom {file : String} {budget : Nat} {cursor : Cursor} :
    ∀ token ∈ (lexFrom file budget cursor).tokens, token.kind.isSpellable = true := by
  induction budget generalizing cursor with
  | zero => simp [lexFrom]
  | succ budget ih =>
    unfold lexFrom
    split
    · simp
    · split
      · exact ih
      · next hscan => exact List.forall_mem_cons.2 ⟨Piece.isSpellable_of_scan hscan, ih⟩
      · simp

/-- All tokens of a text can be spelled. -/
theorem isSpellable_of_tokenize {file : String} {text : List Char} {stream : TokenStream}
    (h : tokenize file text = .ok stream) : ∀ token ∈ stream.tokens, token.kind.isSpellable = true := by
  unfold tokenize at h
  dsimp only at h
  cases hending : (lex file text).ending with
  | error failure =>
    rw [hending] at h
    cases h
  | ok finish =>
    rw [hending] at h
    cases h
    exact isSpellable_of_mem_lexFrom

end Smpl
