import Smpl.Rust.Name
import Mathlib.Data.List.Basic

namespace Smpl.Rust

open List

/-- The character that a backslash and a letter denote. -/
def shortEscape? : Char → Option Char
  | '\\' => some '\\'
  | '"' => some '"'
  | 'n' => some '\n'
  | 'r' => some '\r'
  | 't' => some '\t'
  | '0' => some '\x00'
  | _ => none

def hexDigit? (c : Char) : Option Nat :=
  if '0' ≤ c ∧ c ≤ '9' then some (c.toNat - '0'.toNat)
  else if 'a' ≤ c ∧ c ≤ 'f' then some (c.toNat - 'a'.toNat + 10)
  else if 'A' ≤ c ∧ c ≤ 'F' then some (c.toNat - 'A'.toNat + 10)
  else none

/-- The character with a code point of one to six hexadecimal digits. -/
def codePoint? (digits : List Char) : Option Char := do
  let code ← digits.foldlM (fun code c => (hexDigit? c).map (16 * code + ·)) 0
  if 0 < digits.length ∧ digits.length ≤ 6 ∧ code.isValidChar then some (Char.ofNat code) else none

/-- Where the reader of a literal is: in the text, after a backslash, before the brace of a code point, or in its
    digits, of which the latest stands first. -/
inductive Reading
  | text
  | escape
  | brace
  | digits (seen : List Char)

/-- Reads a literal after its first quote, up to the quote that ends it: the text that it denotes, and what follows. A
    carriage return cannot stand for itself. -/
def unescape : Reading → List Char → Option (List Char × List Char)
  | _, [] => none
  | .text, c :: rest =>
    if c = '"' then some ([], rest)
    else if c = '\\' then unescape .escape rest
    else if c = '\r' then none
    else (unescape .text rest).map (Prod.map (c :: ·) id)
  | .escape, c :: rest =>
    if c = 'u' then unescape .brace rest
    else (shortEscape? c).bind fun denoted => (unescape .text rest).map (Prod.map (denoted :: ·) id)
  | .brace, c :: rest => if c = '\x7b' then unescape (.digits []) rest else none
  | .digits seen, c :: rest =>
    if c = '\x7d' then
      (codePoint? seen.reverse).bind fun denoted => (unescape .text rest).map (Prod.map (denoted :: ·) id)
    else unescape (.digits (c :: seen)) rest

/-- Reads a literal with its quotes. -/
def readString : List Char → Option (List Char × List Char)
  | '"' :: rest => unescape .text rest
  | _ => none

/-- Every quote of a text follows a backslash that is not escaped itself. Whether such a backslash stands before the
    text is given. -/
def quotesEscaped : Bool → List Char → Bool
  | _, [] => true
  | escaped, c :: rest => (decide (c ≠ '"') || escaped) && quotesEscaped (!escaped && decide (c = '\\')) rest

def isControl (c : Char) : Bool :=
  c.toNat < 0x20 || c.toNat = 0x7f

/-- Characters that may stand in a literal as they are. -/
def isPlain (c : Char) : Bool :=
  !isControl c && c ≠ '"' && c ≠ '\\'

theorem isPlain_iff {c : Char} : isPlain c = true ↔ isControl c = false ∧ c ≠ '"' ∧ c ≠ '\\' := by
  simp [isPlain, and_assoc]

/-- The ways in which a character is written: by an escape of one letter, by its code point, or by itself. -/
inductive Written (c : Char) : List Char → Prop
  | short {letter : Char} : shortEscape? letter = some c → Written c ['\\', letter]
  | code {digits : List Char} : codePoint? digits = some c → '\x7d' ∉ digits → digits.all isPlain = true →
    Written c ('\\' :: 'u' :: '\x7b' :: digits ++ ['\x7d'])
  | self : isPlain c = true → Written c [c]

/-- Every character is escaped in a form that Rust reads back. -/
theorem written_escape (c : Char) : Written c (escape c) := by
  unfold escape
  split
  · exact .short rfl
  · exact .short rfl
  · exact .short rfl
  · exact .short rfl
  · exact .short rfl
  · exact .short rfl
  · next hbackslash hquote _ _ _ _ =>
    split
    · next hcontrol =>
      have hdigits : ∀ n < 128, codePoint? (Text.hexadecimal 1 n) = some (Char.ofNat n) ∧
          '\x7d' ∉ Text.hexadecimal 1 n ∧ (Text.hexadecimal 1 n).all isPlain = true := by
        decide +kernel
      have hsmall : c.toNat < 128 := by
        simp only [Bool.or_eq_true, decide_eq_true_eq] at hcontrol
        omega
      obtain ⟨hcode, hbrace, hplain⟩ := hdigits c.toNat hsmall
      exact .code (hcode.trans (by rw [Char.ofNat_toNat])) hbrace hplain
    · next hcontrol => exact .self (isPlain_iff.2 ⟨Bool.eq_false_iff.2 hcontrol, hquote, hbackslash⟩)

theorem unescape_digits {digits : List Char} (hbrace : '\x7d' ∉ digits) (seen rest : List Char) :
    unescape (.digits seen) (digits ++ '\x7d' :: rest) = (codePoint? (seen.reverse ++ digits)).bind fun denoted =>
      (unescape .text rest).map (Prod.map (denoted :: ·) id) := by
  induction digits generalizing seen with
  | nil => simp [unescape]
  | cons digit digits ih =>
    rw [List.mem_cons, not_or] at hbrace
    rw [List.cons_append, unescape, if_neg (Ne.symm hbrace.1), ih hbrace.2, List.reverse_cons, List.append_assoc,
      List.singleton_append]

theorem quotesEscaped_plain {plain : List Char} (hplain : plain.all isPlain = true) (rest : List Char) :
    quotesEscaped false (plain ++ rest) = quotesEscaped false rest := by
  induction plain with
  | nil => rfl
  | cons c plain ih =>
    rw [List.all_cons, Bool.and_eq_true] at hplain
    obtain ⟨_, hquote, hbackslash⟩ := isPlain_iff.1 hplain.1
    simp [quotesEscaped, hquote, hbackslash, ih hplain.2]

namespace Written

variable {c : Char} {text : List Char} (h : Written c text)
include h

theorem unescape_append (rest : List Char) :
    unescape .text (text ++ rest) = (unescape .text rest).map (Prod.map (c :: ·) id) := by
  cases h with
  | @short letter hletter =>
    have hcode : letter ≠ 'u' := by
      rintro rfl
      cases hletter
    simp [unescape, hcode, hletter]
  | code hdigits hbrace => simp [unescape, unescape_digits hbrace, hdigits]
  | self hplain =>
    obtain ⟨hcontrol, hquote, hbackslash⟩ := isPlain_iff.1 hplain
    have hreturn : c ≠ '\r' := by
      rintro rfl
      cases hcontrol
    simp [unescape, hquote, hbackslash, hreturn]

theorem quotesEscaped_append (rest : List Char) : quotesEscaped false (text ++ rest) = quotesEscaped false rest := by
  cases h with
  | short => simp [quotesEscaped]
  | @code digits _ _ hplain => simpa [quotesEscaped] using quotesEscaped_plain hplain ('\x7d' :: rest)
  | self hplain => exact quotesEscaped_plain (by simpa using hplain) rest

theorem any_isControl : text.any isControl = false := by
  cases h with
  | @short letter hletter =>
    unfold shortEscape? at hletter
    split at hletter
    case h_7 => cases hletter
    all_goals rfl
  | @code digits _ _ hplain =>
    have hdigits : digits.any isControl = false := List.any_eq_false.2 fun digit hdigit => by
      simp [(isPlain_iff.1 (List.all_eq_true.1 hplain digit hdigit)).1]
    rw [List.any_append, List.any_cons, List.any_cons, List.any_cons, hdigits]
    rfl
  | self hplain => simp [(isPlain_iff.1 hplain).1]

end Written

/-- A string literal is its text between two quotes. Whatever follows it, reading it gives the text back and ends after
    its last quote; no other quote could end it, and no control character stands in it. -/
theorem readString_stringLiteral (value : String) :
    ∃ body, (stringLiteral value).toList = '"' :: body ++ ['"'] ∧
      (∀ rest, readString ((stringLiteral value).toList ++ rest) = some (value.toList, rest)) ∧
      quotesEscaped false body = true ∧ ∀ c ∈ body, 0x20 ≤ c.toNat ∧ c.toNat ≠ 0x7f := by
  have hliteral : (stringLiteral value).toList = '"' :: value.toList.flatMap escape ++ ['"'] := by
    rw [stringLiteral, String.toList_ofList]
  have hread : ∀ text rest : List Char, unescape .text (text.flatMap escape ++ '"' :: rest) = some (text, rest) := by
    intro text rest
    induction text with
    | nil => rfl
    | cons c text ih =>
      rw [flatMap_cons, append_assoc, (written_escape c).unescape_append, ih]
      rfl
  have hquotes : ∀ text : List Char, quotesEscaped false (text.flatMap escape) = true := by
    intro text
    induction text with
    | nil => rfl
    | cons c text ih => rw [flatMap_cons, (written_escape c).quotesEscaped_append, ih]
  refine ⟨_, hliteral, fun rest => ?_, hquotes value.toList, fun c hc => ?_⟩
  · rw [hliteral, append_assoc]
    exact hread value.toList rest
  · obtain ⟨source, _, hmem⟩ := mem_flatMap.1 hc
    have hcontrol := any_eq_false.1 (written_escape source).any_isControl c hmem
    simpa [isControl] using hcontrol

end Smpl.Rust
