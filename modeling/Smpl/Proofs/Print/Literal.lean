import Smpl.Proofs.Double.Literal
import Smpl.Proofs.Print.Lexing
import Smpl.Syntax.Print

namespace Smpl

open List

theorem not_isIdentifierStart_of_isDigit {c : Char} (h : c.isDigit = true) :
    isIdentifierStart c = false ∧ isBlank c = false := by
  constructor
  · rw [Bool.eq_false_iff]
    intro hstart
    have hletter : c.isAlpha =
        (decide ('A'.val ≤ c.val ∧ c.val ≤ 'Z'.val) || (decide ('a'.val ≤ c.val) && decide (c.val ≤ 'z'.val))) := rfl
    simp only [isIdentifierStart, hletter, Bool.or_eq_true, Bool.and_eq_true, decide_eq_true_eq,
      UInt32.le_iff_toNat_le] at hstart
    simp only [Char.isDigit, Bool.and_eq_true, decide_eq_true_eq, ge_iff_le, UInt32.le_iff_toNat_le] at h
    obtain (hupper | hlower) | rfl := hstart
    · simp at h hupper
      omega
    · simp at h hlower
      omega
    · simp at h
  · rw [Bool.eq_false_iff]
    intro hblank
    simp only [isBlank, Bool.or_eq_true, decide_eq_true_eq] at hblank
    obtain ((rfl | rfl) | rfl) | rfl := hblank <;> cases h

theorem Piece.scan_number {c : Char} {more rest : List Char} (hdigits : ∀ d ∈ c :: more, d.isDigit = true)
    (hrest : Ends Char.isDigit rest) : Piece.scan c (more ++ rest) = .ofNumber (c :: more) rest := by
  have hc := hdigits c mem_cons_self
  obtain ⟨hstart, hblank⟩ := not_isIdentifierStart_of_isDigit hc
  obtain ⟨htake, hdrop⟩ := takeWhile_append_of_ends (fun d hd => hdigits d (mem_cons_of_mem c hd)) hrest
  simp only [Piece.scan, hblank, hstart, hc, htake, hdrop, Bool.false_eq_true, if_false, if_true]

/-- The characters that make a number after a number. -/
def continuesNumber (c : Char) : Bool :=
  c.isDigit || c = '.'

namespace Lexes

variable {rest : List Char} {kinds : List TokenKind}

/-- The decimal digits of an integer are read as that integer. -/
theorem integer {value : Nat} (hvalue : value ≤ maxInteger) (h : Lexes rest kinds)
    (hrest : Ends continuesNumber rest) : Lexes (Nat.toDigits 10 value ++ rest) (.integer value :: kinds) := by
  have hlength : (Nat.toDigits 10 value).length ≤ maxDigits :=
    (Nat.length_toDigits_le_iff (by decide) (by decide)).2 (Nat.lt_of_le_of_lt hvalue (by decide +kernel))
  have hread : Nat.ofDigitChars 10 (Nat.toDigits 10 value) 0 = value := Nat.ofDigitChars_ten_toDigits
  have hdigits : ∀ d ∈ Nat.toDigits 10 value, d.isDigit = true := Decimal.isDigit_toDigits
  cases htext : Nat.toDigits 10 value with
  | nil => exact absurd htext Nat.toDigits_ne_nil
  | cons c more =>
    rw [htext] at hlength hread hdigits
    refine .token ?_ h
    rw [Piece.scan_number hdigits fun d t heq => (Bool.or_eq_false_iff.1 (hrest d t heq)).1]
    have hnumber : Piece.ofNumber (c :: more) rest = .ofInteger (c :: more) := by
      unfold Piece.ofNumber
      split
      · exact absurd (hrest _ _ rfl) (by decide)
      · rfl
    rw [hnumber, Piece.ofInteger, if_neg (Nat.not_lt.2 hlength)]
    simp only [hread, hvalue, if_true]

/-- The literal of a spellable number is read as that number. -/
theorem float {value : Double} (hvalue : value.isSpellable = true) (h : Lexes rest kinds)
    (hrest : Ends Char.isDigit rest) : Lexes (value.literal.toList ++ rest) (.float value :: kinds) := by
  simp only [Double.isSpellable, Bool.and_eq_true, Bool.not_eq_true'] at hvalue
  obtain ⟨hfinite, hsign⟩ := hvalue
  obtain ⟨whole, fraction, htext, hwhole, hfraction, hdigits, hdigits', hread⟩ := Double.literal_isText hfinite hsign
  have hinfinite : value.isInfinite = false := by
    have hexponent : value.exponentField ≠ 2047 := by simpa [Double.isFinite] using hfinite
    simp [Double.isInfinite, hexponent]
  obtain ⟨c, more, rfl⟩ := exists_cons_of_ne_nil hwhole
  obtain ⟨d, others, rfl⟩ := exists_cons_of_ne_nil hfraction
  have hd := hdigits' d mem_cons_self
  have htake := (takeWhile_append_of_ends (fun e he => hdigits' e (mem_cons_of_mem d he)) hrest).1
  have hsplit : value.literal.toList ++ rest = c :: (more ++ '.' :: d :: others) ++ rest := by
    rw [htext]
    simp
  rw [hsplit]
  refine .token ?_ h
  rw [append_assoc, Piece.scan_number hdigits (by rintro e t ⟨⟩; rfl)]
  simp [Piece.ofNumber, hd, htake, Piece.ofFloat, hread, hinfinite]

end Lexes

theorem toList_repr_natCast (n : Nat) : (Int.repr n).toList = Nat.toDigits 10 n :=
  Nat.toList_repr

/-- The escapes of a string literal are read back as the characters they stand for. -/
theorem scanString_quotedChar (c : Char) (text : List Char) :
    scanString (Text.quotedChar c ++ text) = (scanString text).prepend c (Text.quotedChar c) := by
  unfold Text.quotedChar
  split
  case h_7 hbackslash hquote hnewline _ _ _ =>
    rw [singleton_append, scanString]
    · exact hquote
    · exact hnewline
    · exact fun h _ => hbackslash h
    · exact fun _ _ h _ => hbackslash h
  all_goals rfl

/-- A quoted text is read back as that text. -/
theorem scanString_quoted (value rest : List Char) :
    scanString (value.flatMap Text.quotedChar ++ '"' :: rest) =
      .closed value (value.flatMap Text.quotedChar ++ ['"']) := by
  induction value with
  | nil => rfl
  | cons c value ih =>
    rw [flatMap_cons, append_assoc, scanString_quotedChar, ih, StringEnd.prepend, append_assoc]

theorem Text.toList_quoted (value : String) :
    (Text.quoted value).toList = '"' :: (value.toList.flatMap Text.quotedChar ++ ['"']) := by
  simp [Text.quoted]

/-- A string literal is read whole, whatever follows it. -/
theorem Piece.scan_quoted (value : String) (rest : List Char) :
    Piece.scan '"' (value.toList.flatMap Text.quotedChar ++ ['"'] ++ rest) =
      .token (.string value) (Text.quoted value).toList := by
  have hscan : ∀ text, Piece.scan '"' text = .ofString text := fun _ => rfl
  rw [hscan, List.append_assoc, List.singleton_append, Piece.ofString, scanString_quoted, Text.toList_quoted]
  simp [String.ofList_toList]

theorem Lexes.string (value : String) {rest : List Char} {kinds : List TokenKind} (h : Lexes rest kinds) :
    Lexes ((Text.quoted value).toList ++ rest) (.string value :: kinds) := by
  have hscan := Piece.scan_quoted value rest
  rw [Text.toList_quoted] at hscan ⊢
  exact .token hscan h

theorem Text.newline_not_mem_quotedChar (c : Char) : '\n' ∉ Text.quotedChar c := by
  unfold Text.quotedChar
  split
  case h_7 hnewline _ _ _ => simpa using Ne.symm hnewline
  all_goals decide

theorem Text.newline_not_mem_quoted (value : String) : '\n' ∉ (Text.quoted value).toList := by
  rw [Text.toList_quoted]
  simp [Text.newline_not_mem_quotedChar]

/-- Text without line feeds is passed on one line. -/
theorem Cursor.past_of_not_mem {text : List Char} (h : '\n' ∉ text) (rest lineStart : List Char) (line column : Nat) :
    Cursor.past ⟨text ++ rest, line, column, lineStart⟩ text = ⟨rest, line, column + text.length, lineStart⟩ := by
  induction text generalizing column with
  | nil => rfl
  | cons c text ih =>
    obtain ⟨hc, htext⟩ := not_or.1 (mt List.mem_cons.2 h)
    have hstep : Cursor.step ⟨c :: text ++ rest, line, column, lineStart⟩ c =
      ⟨text ++ rest, line, column + 1, lineStart⟩ :=
      if_neg (Ne.symm hc)
    rw [Cursor.past, List.foldl_cons, hstep, ← Cursor.past, ih htext, List.length_cons, Nat.add_right_comm,
      Nat.add_assoc]

/-- Wherever it stands and whatever follows it, the literal for a text is read as one token that denotes this text, and
    reading goes on right after it on the same line. -/
theorem lexFrom_quoted (file value : String) (rest lineStart : List Char) (line column budget : Nat) :
    let after := lexFrom file budget ⟨rest, line, column + (Text.quoted value).length, lineStart⟩
    lexFrom file (budget + 1) ⟨(Text.quoted value).toList ++ rest, line, column, lineStart⟩ =
      ⟨⟨.string value, Text.quoted value, ⟨file, line, column⟩⟩ :: after.tokens, after.ending⟩ := by
  intro after
  have htext : (Text.quoted value).toList ++ rest = '"' :: (value.toList.flatMap Text.quotedChar ++ ['"'] ++ rest) := by
    rw [Text.toList_quoted, cons_append]
  have hpast := Cursor.past_of_not_mem (Text.newline_not_mem_quoted value) rest lineStart line column
  rw [String.length_toList, htext] at hpast
  simp only [lexFrom, htext, Piece.scan_quoted, hpast, String.ofList_toList]
  rfl

end Smpl
