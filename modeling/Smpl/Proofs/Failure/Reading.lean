import Smpl.Proofs.Failure.Outcome
import Smpl.Proofs.Grammar.ReadFrom

namespace Smpl

open List

/-- No run of decimal digits in a text is longer than what is read as one integer. -/
def DigitRunsFit (text : List Char) : Prop :=
  ∀ digits, digits <:+: text → (∀ d ∈ digits, d.isDigit = true) → digits.length ≤ maxDigits

/-- The digit runs of short texts fit. -/
theorem digitRunsFit_of_length_le {text : List Char} (h : text.length ≤ maxDigits) : DigitRunsFit text :=
  fun _ hdigits _ => Nat.le_trans hdigits.length_le h

theorem DigitRunsFit.of_suffix {text rest : List Char} (h : DigitRunsFit text) (hrest : rest <:+ text) :
    DigitRunsFit rest :=
  fun digits hdigits => h digits (hdigits.trans hrest.isInfix)

namespace Piece

variable {fault : ScanFault} {n : Nat}

theorem lt_length_of_ofInteger {digits : List Char} (h : ofInteger digits = .fault fault)
    (hreason : fault.reason = .digitLimit n) : maxDigits < digits.length := by
  unfold ofInteger at h
  split at h
  · next hlong => exact hlong
  · dsimp only at h
    split at h <;> cases h
    cases hreason

/-- A number meets the digit limit by its whole part only. -/
theorem lt_length_of_ofNumber {whole rest : List Char} (h : ofNumber whole rest = .fault fault)
    (hreason : fault.reason = .digitLimit n) : maxDigits < whole.length := by
  unfold ofNumber at h
  split at h
  · split at h
    · unfold ofFloat at h
      dsimp only at h
      split at h <;> cases h
      cases hreason
    · exact lt_length_of_ofInteger h hreason
  · exact lt_length_of_ofInteger h hreason

/-- Only a run of digits that is too long meets the limit of the number reader. -/
theorem exists_digits_of_scan {c : Char} {rest : List Char} (h : scan c rest = .fault fault)
    (hreason : fault.reason = .digitLimit n) :
    ∃ digits, digits <+: c :: rest ∧ (∀ d ∈ digits, d.isDigit = true) ∧ maxDigits < digits.length := by
  unfold scan at h
  split at h
  · cases h
  split at h
  · unfold ofIdentifier at h
    dsimp only at h
    split at h <;> cases h
  split at h
  · next hdigit =>
    refine ⟨_, cons_prefix_cons.2 ⟨rfl, takeWhile_prefix _⟩, ?_, lt_length_of_ofNumber h hreason⟩
    exact forall_mem_cons.2 ⟨hdigit, all_eq_true.1 all_takeWhile⟩
  split at h
  · unfold ofString at h
    split at h <;> cases h <;> cases hreason
  · cases h
  · split at h <;> cases h
    cases hreason
  · unfold ofSymbol at h
    split at h
    · cases h
    · split at h <;> cases h
      cases hreason

end Piece

theorem Cursor.rest_past_suffix (cursor : Cursor) (text : List Char) : (cursor.past text).rest <:+ cursor.rest := by
  induction text generalizing cursor with
  | nil => exact suffix_rfl
  | cons c text ih =>
    have hstep : (cursor.step c).rest = cursor.rest.tail := by
      unfold Cursor.step
      split <;> rfl
    exact (ih (cursor.step c)).trans (hstep ▸ tail_suffix _)

variable {file : String} {budget : Nat} {cursor : Cursor} {text : List Char}

/-- Tokens stand in the file that is read. -/
theorem file_of_mem_lexFrom : ∀ token ∈ (lexFrom file budget cursor).tokens, token.location.file = file := by
  induction budget generalizing cursor with
  | zero => simp [lexFrom]
  | succ budget ih =>
    unfold lexFrom
    split
    · simp
    · split
      · exact ih
      · exact forall_mem_cons.2 ⟨rfl, ih⟩
      · simp

theorem file_of_lexFrom_ending {finish : Location} (h : (lexFrom file budget cursor).ending = .ok finish) :
    finish.file = file := by
  induction budget generalizing cursor with
  | zero =>
    cases h
    rfl
  | succ budget ih =>
    unfold lexFrom at h
    split at h
    · cases h
      rfl
    · split at h
      · exact ih h
      · exact ih h
      · cases h

/-- Reading tokens fails only at a place of the file, if it meets no run of digits that is too long. -/
theorem failsIn_lexFrom (h : DigitRunsFit cursor.rest) : FailsIn file (lexFrom file budget cursor).ending := by
  induction budget generalizing cursor with
  | zero => exact .ok _
  | succ budget ih =>
    unfold lexFrom
    split
    · exact .ok _
    · next c rest hrest =>
      split
      · exact ih (h.of_suffix (cursor.rest_past_suffix _))
      · exact ih (h.of_suffix (cursor.rest_past_suffix _))
      · next fault hscan =>
        refine .error ?_
        cases hreason : fault.reason with
        | cause cause =>
          rw [ScanFault.failure, hreason]
          exact ⟨_, _, rfl, rfl, rfl⟩
        | digitLimit n =>
          obtain ⟨digits, hprefix, hdigits, hlong⟩ := Piece.exists_digits_of_scan hscan hreason
          have hshort := h digits (hrest ▸ hprefix.isInfix) hdigits
          omega

theorem tokenize_eq_ok_iff {stream : TokenStream} :
    tokenize file text = .ok stream ↔
      (lex file text).ending = .ok stream.finish ∧ (lex file text).tokens = stream.tokens := by
  obtain ⟨tokens, finish⟩ := stream
  unfold tokenize
  dsimp only
  cases (lex file text).ending with
  | error failure => simp [Except.map]
  | ok finish' => simp [Except.map, and_comm]

/-- A text whose digit runs fit is split into tokens or refused at a place of its file. -/
theorem failsIn_tokenize (h : DigitRunsFit text) : FailsIn file (tokenize file text) := by
  have hstart : DigitRunsFit (Cursor.start text).rest := h
  exact (failsIn_lexFrom hstart).map

namespace Module

/-- A text whose digit runs fit is read as a module or refused by a diagnostic. -/
theorem failsOnly_ofSource {source : String} (h : DigitRunsFit source.toList) :
    FailsOnly Failure.IsDiagnostic (Module.ofSource file source) := by
  refine .bind ((failsIn_tokenize h).mono fun _ => Failure.LocatedIn.isDiagnostic) fun stream _ => ?_
  rw [Module.parse]
  cases Module.ofTokens file stream with
  | error fault => exact .error ⟨_, rfl⟩
  | ok module_ => exact .ok module_

/-- All nodes of a module stand in the file that it was read from. -/
theorem readFrom_of_ofSource {source : String} {module_ : Module} (h : Module.ofSource file source = .ok module_) :
    module_.ReadFrom file := by
  obtain ⟨stream, hstream, hparse⟩ := bind_eq_ok_iff.1 h
  obtain ⟨hending, htokens⟩ := tokenize_eq_ok_iff.1 hstream
  exact (Module.parse_eq_ok_iff.1 hparse).readFrom (htokens ▸ file_of_mem_lexFrom) (file_of_lexFrom_ending hending)

end Module

end Smpl
