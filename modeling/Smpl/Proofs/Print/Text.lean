import Smpl.Proofs.Print.Canonical
import Smpl.Proofs.Print.Literal

namespace Smpl

open List

variable {continues : Char → Bool} {rest : List Char} {c : Char}

/-- The characters that end the text of a type or expression. -/
def isBreak (c : Char) : Bool :=
  c = ' ' || c = ')' || c = ',' || c = ';'

/-- A text that is read as tokens of these kinds wherever such a character follows. -/
def Spells (text : String) (kinds : List TokenKind) : Prop :=
  ∀ ⦃rest ks⦄, Lexes rest ks → Ends (fun c => !isBreak c) rest → Lexes (text.toList ++ rest) (kinds ++ ks)

theorem Ends.mono {continues' : Char → Bool} (h : Ends continues rest)
    (himp : ∀ c, continues c = false → continues' c = false) : Ends continues' rest :=
  fun c t heq => himp c (h c t heq)

theorem Ends.cons (h : continues c = false) : Ends continues (c :: rest) := by
  rintro d t ⟨⟩
  exact h

theorem eq_of_isBreak (h : (!isBreak c) = false) : c = ' ' ∨ c = ')' ∨ c = ',' ∨ c = ';' := by
  simp only [isBreak, Bool.not_eq_false', Bool.or_eq_true, decide_eq_true_eq, or_assoc] at h
  exact h

theorem Ends.identifier (h : Ends (fun c => !isBreak c) rest) : Ends isIdentifierPart rest :=
  h.mono fun c hc => by obtain rfl | rfl | rfl | rfl := eq_of_isBreak hc <;> rfl

theorem Ends.number (h : Ends (fun c => !isBreak c) rest) : Ends continuesNumber rest :=
  h.mono fun c hc => by obtain rfl | rfl | rfl | rfl := eq_of_isBreak hc <;> rfl

section

variable {rest : List Char} {ks : List TokenKind}

/-- Names with a separator between them that is part of no name and joins none. -/
theorem Lexes.chain (separator : Symbol) (hseparator : ∀ t, Ends isIdentifierPart (separator.spelling.toList ++ t))
    (hjoins : ∀ c, separator.joins c = false) {names : List String} (hnames : ∀ name ∈ names, isName name = true)
    (hne : names ≠ []) (h : Lexes rest ks) (hrest : Ends isIdentifierPart rest) :
    Lexes ((separator.spelling.intercalate names).toList ++ rest) (chainKinds separator names ++ ks) := by
  rw [String.toList_intercalate]
  induction names with
  | nil => exact absurd rfl hne
  | cons name names ih =>
    have hname := hnames name mem_cons_self
    cases names with
    | nil => simpa [chainKinds] using Lexes.identifier hname h hrest
    | cons next names =>
      have hothers := ih (fun name' hname' => hnames name' (mem_cons_of_mem name hname')) (cons_ne_nil _ _)
      have hmark := Lexes.symbol separator hothers (fun c _ _ => hjoins c)
      have hchain := Lexes.identifier hname hmark (hseparator _)
      simpa [chainKinds, intercalate_cons_cons] using hchain

theorem Path.isSpellable_iff {path : Path} :
    path.isSpellable = true ↔ path.isMissing = false ∧ ∀ name ∈ path.segments, isName name = true := by
  simp [Path.isSpellable]

/-- A path is read as its tokens. -/
theorem Lexes.path {path : Path} (hpath : path.isSpellable = true) (h : Lexes rest ks)
    (hrest : Ends isIdentifierPart rest) : Lexes (path.text.toList ++ rest) (path.kinds ++ ks) := by
  have hne : path.segments ≠ [] := by simp [Path.segments]
  exact Lexes.chain .colonColon (fun _ => .cons rfl) (fun _ => rfl) (Path.isSpellable_iff.1 hpath).2 hne h hrest

theorem Lexes.fields {root : String} {fields : List String} (hroot : isName root = true)
    (hfields : ∀ name ∈ fields, isName name = true) (h : Lexes rest ks) (hrest : Ends isIdentifierPart rest) :
    Lexes ((chainText root fields).toList ++ rest) (chainKinds .dot (root :: fields) ++ ks) :=
  Lexes.chain .dot (fun _ => .cons rfl) (fun _ => rfl) (forall_mem_cons.2 ⟨hroot, hfields⟩)
    (cons_ne_nil _ _) h hrest

end

variable {texts : List String} {kss : List (List TokenKind)}

/-- Texts between commas spell the tokens of each, with commas between them. -/
theorem commaSeparated_spells (h : Forall₂ Spells texts kss) : Spells (commaSeparated texts) (commaKinds kss) := by
  intro rest ks hks hrest
  rw [commaSeparated, String.toList_intercalate]
  induction h with
  | nil => exact hks
  | @cons text kinds texts kss hfirst hothers ih =>
    cases hothers with
    | nil => simpa [commaKinds] using hfirst hks hrest
    | cons =>
      have hcomma := Lexes.symbol .comma ih.space (fun _ _ _ => rfl)
      have hlist := hfirst hcomma (.cons rfl)
      simpa [commaKinds, intercalate_cons_cons, Symbol.spelling] using hlist

/-- A list after the word `type` brings its own end. -/
theorem typeListText_lexes (h : Forall₂ Spells texts kss) {ks : List TokenKind} (hks : Lexes rest ks) :
    Lexes ((typeListText texts).toList ++ rest) (typeListKinds kss ++ ks) := by
  cases h with
  | nil => exact hks
  | cons hfirst hothers =>
    have hclose := Lexes.symbol .rightParen hks (fun _ _ _ => rfl)
    have hlist := commaSeparated_spells (.cons hfirst hothers) hclose (.cons rfl)
    have hword := Lexes.keyword .type hlist.space (.cons rfl)
    have hopen := Lexes.symbol .leftParen hword (fun _ _ _ => rfl)
    simpa [typeListText, typeListKinds, Symbol.spelling, Keyword.spelling] using hopen

theorem typeListText_ends (h : Ends isIdentifierPart rest) :
    Ends isIdentifierPart ((typeListText texts).toList ++ rest) := by
  unfold typeListText
  split
  · exact h
  · simpa using Ends.cons rfl

end Smpl
