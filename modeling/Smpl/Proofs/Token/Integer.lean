import Mathlib.Data.Nat.Digits.Defs
import Smpl.Proofs.Token.Line

namespace Smpl

open List

/-- The number that decimal digits denote, the last of them being the ones. -/
def decimalValue (digits : List Char) : Nat :=
  Nat.ofDigits 10 (digits.reverse.map fun d => d.toNat - '0'.toNat)

theorem ofDigitChars_eq_decimalValue (digits : List Char) : Nat.ofDigitChars 10 digits 0 = decimalValue digits := by
  induction digits using List.reverseRecOn with
  | nil => rfl
  | append_singleton digits d ih =>
    rw [Nat.ofDigitChars_append, ih, decimalValue, decimalValue, reverse_append, reverse_singleton,
      singleton_append, map_cons, Nat.ofDigits_cons, Nat.ofDigitChars_cons, Nat.ofDigitChars_nil]
    exact Nat.add_comm _ _

theorem decimalValue_replicate_zero (n : Nat) : decimalValue (List.replicate n '0') = 0 := by
  rw [← ofDigitChars_eq_decimalValue, Nat.ofDigitChars_replicate_zero, Nat.mul_zero]

/-- All the decimal digits at the start of a text, with nothing after them that would make them part of a float. -/
structure DigitRun (digits more : List Char) : Prop where
  nonempty : digits ≠ []
  digits : ∀ d ∈ digits, d.isDigit = true
  ends : Ends Char.isDigit more
  whole : ∀ d rest, more = '.' :: d :: rest → d.isDigit = false

namespace DigitRun

variable {digits more : List Char} (h : DigitRun digits more)
include h

theorem ofNumber : Piece.ofNumber digits more = .ofInteger digits := by
  unfold Piece.ofNumber
  split
  · next d rest => rw [if_neg (by simp [h.whole d rest rfl])]
  · rfl

/-- The piece at the start of the text is what the run alone is read as. -/
theorem scan : ∃ c rest, digits ++ more = c :: rest ∧ Piece.scan c rest = .ofInteger digits := by
  obtain ⟨c, others, hdigits⟩ := exists_cons_of_ne_nil h.nonempty
  have hnumber := Piece.scan_number (hdigits ▸ h.digits) h.ends
  rw [← hdigits, h.ofNumber] at hnumber
  exact ⟨c, others ++ more, by rw [hdigits, cons_append], hnumber⟩

end DigitRun

/-- A run of digits is read as the integer that it denotes, with any number of zeros in front, or refused as out of
    range, by its value alone as long as it has no more digits than are converted. A longer one is a defect,
    whatever its value. -/
theorem lexFrom_digitRun {digits more : List Char} (h : DigitRun digits more) (file : String) (before : List Char)
    (budget : Nat) {source : List Char} (hsource : source = before ++ (digits ++ more)) :
    let lexed := lexFrom file (budget + 1) ((Cursor.start source).past before)
    let next := lexFrom file budget ((Cursor.start source).past (before ++ digits))
    (digits.length ≤ maxDigits → decimalValue digits ≤ maxInteger →
      lexed.tokens = ⟨.integer (decimalValue digits), String.ofList digits, .after file before⟩ :: next.tokens ∧
        lexed.ending = next.ending) ∧
    (digits.length ≤ maxDigits → maxInteger < decimalValue digits →
      lexed.tokens = [] ∧ ∃ d, lexed.ending = .error (.diagnostic d) ∧
        d.cause = .integerOutOfRange (String.ofList digits) ∧ d.location = some (.after file before)) ∧
    (maxDigits < digits.length →
      lexed.tokens = [] ∧ lexed.ending = .error (.defect (.digitLimit digits.length))) := by
  intro lexed next
  have hlexed : lexed = lexFrom file (budget + 1) ((Cursor.start source).past before) := rfl
  have hnext : next = lexFrom file budget ((Cursor.start source).past (before ++ digits)) := rfl
  clear_value lexed next
  obtain ⟨c, rest, htext, hscan⟩ := h.scan
  have hrest : ((Cursor.start source).past before).rest = c :: rest := htext ▸ Cursor.rest_past hsource
  have hpast : ((Cursor.start source).past before).past digits = (Cursor.start source).past (before ++ digits) :=
    foldl_append.symm
  rw [lexFrom, hrest] at hlexed
  dsimp only at hlexed
  rw [hscan, Piece.ofInteger, ofDigitChars_eq_decimalValue, Cursor.location_past_start] at hlexed
  refine ⟨fun hfits hrange => ?_, fun hfits hrange => ?_, fun hlong => ?_⟩
  · rw [if_neg (Nat.not_lt.2 hfits)] at hlexed
    simp only [hrange, if_true, hpast, ← hnext] at hlexed
    exact ⟨hlexed ▸ rfl, hlexed ▸ rfl⟩
  · rw [if_neg (Nat.not_lt.2 hfits)] at hlexed
    simp only [Nat.not_le.2 hrange, if_false] at hlexed
    rw [hlexed]
    exact ⟨rfl, _, rfl, rfl, congrArg some (Cursor.location_past_start file source before)⟩
  · rw [if_pos hlong] at hlexed
    rw [hlexed]
    exact ⟨rfl, rfl⟩

/-- Leading zeros stay in the lexeme and not in the value. -/
theorem lexFrom_digitRun_zeros :
    DigitRun "007".toList ";".toList ∧
      (lexFrom "m" 4 ((Cursor.start "a\n007;".toList).past "a\n".toList)).tokens =
        ⟨.integer 7, "007", ⟨"m", 2, 1⟩⟩ ::
          (lexFrom "m" 3 ((Cursor.start "a\n007;".toList).past "a\n007".toList)).tokens := by
  have hdigits : "007".toList.all Char.isDigit = true := by decide
  have hrun : DigitRun "007".toList ";".toList :=
    ⟨by decide, all_eq_true.1 hdigits, fun _ _ heq => (List.cons.inj heq).1 ▸ by decide, fun _ _ heq => by cases heq⟩
  obtain ⟨hread, _, _⟩ := lexFrom_digitRun hrun "m" "a\n".toList 3 rfl
  exact ⟨hrun, (hread (by decide) (by decide)).1⟩

theorem DigitRun.replicate_zero {n : Nat} (h : n ≠ 0) : DigitRun (List.replicate n '0') [] where
  nonempty := by simpa using h
  digits := fun d hd => by
    rw [eq_of_mem_replicate hd]
    rfl
  ends := fun _ _ heq => by cases heq
  whole := fun _ _ heq => by cases heq

/-- Zeros that are more than are converted denote zero and are not read. -/
theorem lex_replicate_zero {n : Nat} (h : maxDigits < n) (file : String) :
    (lex file (List.replicate n '0')).ending = .error (.defect (.digitLimit n)) := by
  obtain ⟨budget, rfl⟩ : ∃ fewer, n = fewer + 1 := ⟨n - 1, by omega⟩
  obtain ⟨c, rest, htext, hscan⟩ := (DigitRun.replicate_zero (Nat.succ_ne_zero budget)).scan
  rw [append_nil] at htext
  have hrest : (Cursor.start (List.replicate (budget + 1) '0')).rest = c :: rest := htext
  rw [lex, length_replicate, lexFrom, hrest]
  dsimp only
  rw [hscan, Piece.ofInteger, length_replicate, if_pos h]
  rfl

/-- A run of zeros can be too long although its value is in range. -/
theorem lex_long_zeros :
    DigitRun (List.replicate 4301 '0') [] ∧ decimalValue (List.replicate 4301 '0') ≤ maxInteger ∧
      (lex "m" (List.replicate 4301 '0')).ending = .error (.defect (.digitLimit 4301)) :=
  ⟨DigitRun.replicate_zero (by decide), decimalValue_replicate_zero 4301 ▸ Nat.zero_le _,
    lex_replicate_zero (by decide) "m"⟩

end Smpl
