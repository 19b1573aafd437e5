import Smpl.Proofs.Print.Spellable

namespace Smpl

open List

variable {text rest : List Char} {kinds : List TokenKind} {c : Char}

/-- A text that is read to its end as tokens of these kinds. -/
inductive Lexes : List Char → List TokenKind → Prop
  | nil : Lexes [] []
  | trivia {c : Char} {more rest : List Char} {kinds : List TokenKind} :
    Piece.scan c (more ++ rest) = .trivia (c :: more) → Lexes rest kinds → Lexes (c :: more ++ rest) kinds
  | token {c : Char} {more rest : List Char} {kind : TokenKind} {kinds : List TokenKind} :
    Piece.scan c (more ++ rest) = .token kind (c :: more) → Lexes rest kinds →
    Lexes (c :: more ++ rest) (kind :: kinds)

theorem Cursor.rest_past {cursor : Cursor} (h : cursor.rest = text ++ rest) : (cursor.past text).rest = rest := by
  induction text generalizing cursor with
  | nil => exact h
  | cons c text ih =>
    rw [Cursor.past, foldl_cons]
    refine ih ?_
    unfold Cursor.step
    split <;> simp [h]

/-- A budget of the length of the text is enough to read it. -/
theorem Lexes.lexFrom (h : Lexes text kinds) (file : String) (budget : Nat) (cursor : Cursor)
    (hbudget : text.length ≤ budget) (hrest : cursor.rest = text) :
    ∃ tokens finish, Smpl.lexFrom file budget cursor = ⟨tokens, .ok finish⟩ ∧ tokens.map Token.kind = kinds := by
  induction h generalizing budget cursor with
  | nil =>
    refine ⟨[], cursor.location file, ?_, rfl⟩
    cases budget <;> simp [Smpl.lexFrom, hrest]
  | @trivia c more rest kinds hscan _ ih =>
    obtain ⟨budget, rfl⟩ : ∃ fewer, budget = fewer + 1 := ⟨budget - 1, by simp at hbudget; omega⟩
    obtain ⟨tokens, finish, hlex, hkinds⟩ := ih budget (cursor.past (c :: more)) (by simp at hbudget; omega)
      (Cursor.rest_past hrest)
    refine ⟨tokens, finish, ?_, hkinds⟩
    simp [Smpl.lexFrom, hrest, hscan, hlex]
  | @token c more rest kind kinds hscan _ ih =>
    obtain ⟨budget, rfl⟩ : ∃ fewer, budget = fewer + 1 := ⟨budget - 1, by simp at hbudget; omega⟩
    obtain ⟨tokens, finish, hlex, hkinds⟩ := ih budget (cursor.past (c :: more)) (by simp at hbudget; omega)
      (Cursor.rest_past hrest)
    refine ⟨⟨kind, String.ofList (c :: more), cursor.location file⟩ :: tokens, finish, ?_, by simp [hkinds]⟩
    simp [Smpl.lexFrom, hrest, hscan, hlex]

/-- A text that is read as tokens of some kinds has a stream of tokens of those kinds. -/
theorem Lexes.tokenize (h : Lexes text kinds) (file : String) :
    ∃ stream, Smpl.tokenize file text = .ok stream ∧ stream.tokens.map Token.kind = kinds := by
  obtain ⟨tokens, finish, hlex, hkinds⟩ := h.lexFrom file text.length (Cursor.start text) (Nat.le_refl _) rfl
  refine ⟨⟨tokens, finish⟩, ?_, hkinds⟩
  simp [Smpl.tokenize, lex, hlex, Except.map]

/-- What follows does not start with a character of a kind. -/
def Ends (continues : Char → Bool) (rest : List Char) : Prop :=
  ∀ c t, rest = c :: t → continues c = false

theorem takeWhile_append_of_ends {continues : Char → Bool} (htext : ∀ c ∈ text, continues c = true)
    (hrest : Ends continues rest) :
    (text ++ rest).takeWhile continues = text ∧ (text ++ rest).dropWhile continues = rest := by
  have hstop : rest.takeWhile continues = [] ∧ rest.dropWhile continues = rest := by
    cases rest with
    | nil => exact ⟨rfl, rfl⟩
    | cons c t => simp [hrest c t rfl]
  rw [takeWhile_append_of_pos htext, dropWhile_append_of_pos htext, hstop.1, hstop.2, append_nil]
  exact ⟨rfl, rfl⟩

theorem not_isBlank_of_isIdentifierStart (h : isIdentifierStart c = true) : isBlank c = false := by
  rw [Bool.eq_false_iff]
  intro hblank
  simp only [isBlank, Bool.or_eq_true, decide_eq_true_eq] at hblank
  obtain ((rfl | rfl) | rfl) | rfl := hblank <;> cases h

theorem Piece.scan_word {more : List Char} (hstart : isIdentifierStart c = true)
    (hmore : ∀ d ∈ more, isIdentifierPart d = true) (hrest : Ends isIdentifierPart rest) :
    Piece.scan c (more ++ rest) = .ofIdentifier (c :: more) := by
  simp [Piece.scan, not_isBlank_of_isIdentifierStart hstart, hstart, (takeWhile_append_of_ends hmore hrest).1]

/-- Every reserved word is spelled as a name would be. -/
theorem Keyword.spelling_spec (word : Keyword) :
    ∃ c more, word.spelling.toList = c :: more ∧ isIdentifierStart c = true ∧
      (∀ d ∈ more, isIdentifierPart d = true) ∧ Keyword.ofSpelling? word.spelling = some word := by
  cases word <;> exact ⟨_, _, rfl, rfl, all_eq_true.1 rfl, by decide⟩

/-- Whether a character after a mark makes it another mark or a comment. -/
def Symbol.joins : Symbol → Char → Bool
  | .minus, '>' | .slash, '/' | .slash, '*' | .less, '=' | .greater, '=' | .not, '=' | .assign, '='
  | .ampersand, '&' | .colon, ':' => true
  | _, _ => false

/-- The characters that start neither a blank, nor a word, nor a literal. -/
def startsSymbol (c : Char) : Bool :=
  !isBlank c && !isIdentifierStart c && !c.isDigit && c ≠ '"'

/-- Every mark is one character or two, and is found by them. -/
theorem Symbol.spelling_spec (mark : Symbol) :
    (∃ c, mark.spelling.toList = [c] ∧ startsSymbol c = true ∧ Symbol.ofChar? c = some mark) ∨
      ∃ c d, mark.spelling.toList = [c, d] ∧ startsSymbol c = true ∧ c ≠ '/' ∧ Symbol.ofPair? c d = some mark := by
  cases mark
  case equal | notEqual | lessEqual | greaterEqual | and | or | arrow | colonColon =>
    exact .inr ⟨_, _, rfl, by decide, by decide, rfl⟩
  all_goals exact .inl ⟨_, rfl, by decide, rfl⟩

theorem Symbol.ofPair?_eq_none {mark : Symbol} {d : Char} (hmark : mark.spelling.toList = [c])
    (hjoins : mark.joins d = false) : Symbol.ofPair? c d = none := by
  unfold Symbol.ofPair?
  split
  case h_9 => rfl
  all_goals
    exfalso
    revert hmark hjoins
    cases mark <;> decide

theorem Piece.scan_of_startsSymbol (hc : startsSymbol c = true)
    (hcomment : c = '/' → Ends (fun d => d = '/' || d = '*') rest) : Piece.scan c rest = .ofSymbol c rest := by
  simp only [startsSymbol, Bool.and_eq_true, Bool.not_eq_true', decide_eq_true_eq] at hc
  obtain ⟨⟨⟨hblank, hstart⟩, hdigit⟩, hquote⟩ := hc
  simp only [Piece.scan, hblank, hstart, hdigit, Bool.false_eq_true, if_false]
  split
  · exact absurd rfl hquote
  · exact absurd (hcomment rfl _ _ rfl) (by decide)
  · exact absurd (hcomment rfl _ _ rfl) (by decide)
  · rfl

/-- A mark is read as itself unless what follows joins it. -/
theorem Piece.scan_symbol (mark : Symbol) (hrest : Ends mark.joins rest) :
    ∃ c more, mark.spelling.toList = c :: more ∧ Piece.scan c (more ++ rest) = .token (.symbol mark) (c :: more) := by
  obtain ⟨c, hchars, hstarts, hmark⟩ | ⟨c, d, hchars, hstarts, hslash, hmark⟩ := mark.spelling_spec
  · refine ⟨c, [], hchars, ?_⟩
    have hcomment : c = '/' → Ends (fun d => d = '/' || d = '*') rest := by
      rintro rfl d t rfl
      have hjoins := hrest d t rfl
      cases hmark
      rw [Bool.eq_false_iff]
      intro hd
      simp only [Bool.or_eq_true, decide_eq_true_eq] at hd
      obtain rfl | rfl := hd <;> cases hjoins
    rw [nil_append, Piece.scan_of_startsSymbol hstarts hcomment]
    cases rest with
    | nil => simp [Piece.ofSymbol, hmark]
    | cons d t => simp [Piece.ofSymbol, hmark, Symbol.ofPair?_eq_none hchars (hrest d t rfl)]
  · refine ⟨c, [d], hchars, ?_⟩
    rw [Piece.scan_of_startsSymbol hstarts (fun h => absurd h hslash)]
    simp [Piece.ofSymbol, hmark]

namespace Lexes

variable {rest : List Char} {kinds : List TokenKind}

theorem blank (hblank : isBlank c = true) (h : Lexes rest kinds) : Lexes (c :: rest) kinds := by
  have hscan : Piece.scan c ([] ++ rest) = .trivia [c] := by simp [Piece.scan, hblank]
  exact .trivia hscan h

theorem space (h : Lexes rest kinds) : Lexes (' ' :: rest) kinds :=
  h.blank rfl

/-- A name is read as itself, if no part of a name follows. -/
theorem identifier {name : String} (hname : isName name = true) (h : Lexes rest kinds)
    (hrest : Ends isIdentifierPart rest) : Lexes (name.toList ++ rest) (.identifier name :: kinds) := by
  unfold isName at hname
  split at hname
  · cases hname
  · next c more hchars =>
    simp only [Bool.and_eq_true, all_eq_true, Option.isNone_iff_eq_none] at hname
    obtain ⟨⟨hstart, hmore⟩, hword⟩ := hname
    have hstring : String.ofList (c :: more) = name := by rw [← hchars, String.ofList_toList]
    rw [hchars]
    refine .token ?_ h
    rw [Piece.scan_word hstart hmore hrest]
    simp only [Piece.ofIdentifier, hstring, hword]

theorem keyword (word : Keyword) (h : Lexes rest kinds) (hrest : Ends isIdentifierPart rest) :
    Lexes (word.spelling.toList ++ rest) (.keyword word :: kinds) := by
  obtain ⟨c, more, hchars, hstart, hmore, hword⟩ := word.spelling_spec
  have hstring : String.ofList (c :: more) = word.spelling := by rw [← hchars, String.ofList_toList]
  rw [hchars]
  refine .token ?_ h
  rw [Piece.scan_word hstart hmore hrest]
  simp only [Piece.ofIdentifier, hstring, hword]

theorem symbol (mark : Symbol) (h : Lexes rest kinds) (hrest : Ends mark.joins rest) :
    Lexes (mark.spelling.toList ++ rest) (.symbol mark :: kinds) := by
  obtain ⟨c, more, hchars, hscan⟩ := Piece.scan_symbol mark hrest
  rw [hchars]
  exact .token hscan h

end Lexes

end Smpl
