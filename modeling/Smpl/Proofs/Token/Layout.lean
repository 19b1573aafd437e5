import Smpl.Proofs.Token.Order

namespace Smpl

open List

variable {digits body : List Char}

/-- Blanks and closed comments, in any order. -/
inductive Separator : List Char → Prop
  | nil : Separator []
  | blank {c : Char} {rest : List Char} : isBlank c = true → Separator rest → Separator (c :: rest)
  | lineComment {body rest : List Char} :
    '\n' ∉ body → Separator rest → Separator ('/' :: '/' :: body ++ '\n' :: rest)
  | blockComment {body rest : List Char} :
    ¬ ['*', '/'] <:+: body → Separator rest → Separator ('/' :: '*' :: body ++ '*' :: '/' :: rest)

/-- What may follow a token without becoming part of it: a separator that starts with a blank. -/
structure Gap (text : List Char) : Prop where
  separates : Separator text
  starts : ∃ c rest, text = c :: rest ∧ isBlank c = true

/-- The lexemes of tokens, each followed by its gap. -/
def laidOut (tokens : List Token) (gaps : List (List Char)) : List Char :=
  (List.zipWith (fun token gap => token.lexeme.toList ++ gap) tokens gaps).flatten

/-- What a token is, apart from its place. -/
def Token.shape (token : Token) : TokenKind × String :=
  (token.kind, token.lexeme)

theorem closeComment_append (rest : List Char) (h : ¬ ['*', '/'] <:+: body) :
    closeComment (body ++ '*' :: '/' :: rest) = some (body ++ ['*', '/']) := by
  induction body with
  | nil => rfl
  | cons c body ih =>
    rw [infix_cons_iff, not_or] at h
    rw [cons_append, closeComment, ih h.2]
    · rfl
    · rintro more rfl hmore
      cases body with
      | nil => cases hmore
      | cons d body =>
        cases hmore
        exact h.1 ⟨body, rfl⟩

/-- Reading a text to its end gives tokens of these shapes, wherever the text stands. -/
def Yields (text : List Char) (shapes : List (TokenKind × String)) : Prop :=
  ∀ file budget cursor, text.length ≤ budget → cursor.rest = text →
    ∃ tokens finish, lexFrom file budget cursor = ⟨tokens, .ok finish⟩ ∧ tokens.map Token.shape = shapes

namespace Yields

variable {c : Char} {more rest : List Char} {shapes : List (TokenKind × String)}

theorem nil : Yields [] [] := by
  intro file budget cursor _ hrest
  refine ⟨[], cursor.location file, ?_, rfl⟩
  cases budget <;> simp [lexFrom, hrest]

theorem trivia (hscan : Piece.scan c (more ++ rest) = .trivia (c :: more)) (h : Yields rest shapes) :
    Yields (c :: more ++ rest) shapes := by
  intro file budget cursor hbudget hrest
  simp only [length_append, length_cons] at hbudget
  obtain ⟨budget, rfl⟩ : ∃ fewer, budget = fewer + 1 := ⟨budget - 1, by omega⟩
  obtain ⟨tokens, finish, hlexed, hshapes⟩ :=
    h file budget (cursor.past (c :: more)) (by omega) (Cursor.rest_past hrest)
  refine ⟨tokens, finish, ?_, hshapes⟩
  rw [← hlexed, lexFrom, hrest]
  simp only [cons_append, hscan]

theorem token {kind : TokenKind} (hscan : Piece.scan c (more ++ rest) = .token kind (c :: more))
    (h : Yields rest shapes) : Yields (c :: more ++ rest) ((kind, String.ofList (c :: more)) :: shapes) := by
  intro file budget cursor hbudget hrest
  simp only [length_append, length_cons] at hbudget
  obtain ⟨budget, rfl⟩ : ∃ fewer, budget = fewer + 1 := ⟨budget - 1, by omega⟩
  obtain ⟨tokens, finish, hlexed, hshapes⟩ :=
    h file budget (cursor.past (c :: more)) (by omega) (Cursor.rest_past hrest)
  refine ⟨⟨kind, String.ofList (c :: more), cursor.location file⟩ :: tokens, finish, ?_, ?_⟩
  · rw [lexFrom, hrest]
    simp only [cons_append, hscan, hlexed]
  · rw [map_cons, hshapes]
    rfl

theorem blank (hblank : isBlank c = true) (h : Yields rest shapes) : Yields (c :: rest) shapes := by
  have hscan : Piece.scan c ([] ++ rest) = .trivia [c] := if_pos hblank
  exact trivia hscan h

theorem lineComment (hbody : '\n' ∉ body) (h : Yields rest shapes) :
    Yields ('/' :: '/' :: body ++ '\n' :: rest) shapes := by
  have hends : Ends (· ≠ '\n') ('\n' :: rest) := by
    rintro d t ⟨⟩
    rfl
  have hline : ∀ d ∈ body, decide (d ≠ '\n') = true := by
    intro d hd
    rw [decide_eq_true_iff]
    rintro rfl
    exact hbody hd
  have hscan : Piece.scan '/' ('/' :: body ++ '\n' :: rest) = .trivia ('/' :: '/' :: body) := by
    change Piece.trivia ('/' :: '/' :: (body ++ '\n' :: rest).takeWhile (· ≠ '\n')) = _
    rw [(takeWhile_append_of_ends hline hends).1]
  exact trivia hscan (blank rfl h)

theorem blockComment (hbody : ¬ ['*', '/'] <:+: body) (h : Yields rest shapes) :
    Yields ('/' :: '*' :: body ++ '*' :: '/' :: rest) shapes := by
  have hscan : Piece.scan '/' ('*' :: (body ++ '*' :: '/' :: rest)) = .trivia ('/' :: '*' :: (body ++ ['*', '/'])) := by
    simp [Piece.scan, isBlank, isIdentifierStart, closeComment_append rest hbody]
  have hsplit : '/' :: '*' :: body ++ '*' :: '/' :: rest = '/' :: ('*' :: (body ++ ['*', '/'])) ++ rest := by simp
  rw [hsplit]
  refine trivia ?_ h
  rw [← hscan]
  simp

/-- A separator is passed over. -/
theorem separator {text : List Char} (htext : Separator text) (h : Yields rest shapes) :
    Yields (text ++ rest) shapes := by
  induction htext with
  | nil => exact h
  | blank hblank _ ih => exact blank hblank ih
  | lineComment hbody _ ih =>
    rw [append_assoc]
    exact lineComment hbody ih
  | blockComment hbody _ ih =>
    rw [append_assoc]
    exact blockComment hbody ih

end Yields

/-- No class of characters without blanks goes on after a blank. -/
theorem ends_of_isBlank {continues : Char → Bool} {b : Char} (hblank : isBlank b = true)
    (h : [' ', '\t', '\n', '\r'].any continues = false) (t : List Char) : Ends continues (b :: t) := by
  rintro c t ⟨⟩
  simp only [isBlank, Bool.or_eq_true, decide_eq_true_eq] at hblank
  rw [← Bool.not_eq_true]
  apply any_eq_false.1 h
  obtain ((rfl | rfl) | rfl) | rfl := hblank <;> simp

theorem Symbol.joins_blank (mark : Symbol) : [' ', '\t', '\n', '\r'].any mark.joins = false := by
  cases mark <;> decide

namespace Piece

variable {c b : Char} {rest t lexeme : List Char} {kind : TokenKind}

theorem scan_blank_of_ofInteger (hdigits : ∀ d ∈ c :: digits, d.isDigit = true)
    (hblank : isBlank b = true) (h : ofInteger (c :: digits) = .token kind lexeme) :
    ∃ more, lexeme = c :: more ∧ scan c (more ++ b :: t) = .token kind (c :: more) := by
  have hlexeme : lexeme = c :: digits := by
    unfold ofInteger at h
    grind
  subst hlexeme
  refine ⟨digits, rfl, ?_⟩
  rw [scan_number hdigits (ends_of_isBlank hblank (by decide) t), ← h]
  unfold ofNumber
  split
  · next heq =>
    cases heq
    cases hblank
  · rfl

theorem scan_blank_of_ofFloat {fraction : List Char} {d : Char} (hdigits : ∀ d ∈ c :: digits, d.isDigit = true)
    (hfraction : ∀ e ∈ d :: fraction, e.isDigit = true) (hblank : isBlank b = true)
    (h : ofFloat (c :: digits) (d :: fraction) = .token kind lexeme) :
    ∃ more, lexeme = c :: more ∧ scan c (more ++ b :: t) = .token kind (c :: more) := by
  obtain ⟨hd, hothers⟩ := forall_mem_cons.1 hfraction
  have hlexeme : lexeme = c :: (digits ++ '.' :: d :: fraction) := by
    unfold ofFloat at h
    grind
  subst hlexeme
  refine ⟨_, rfl, ?_⟩
  have hpoint : Ends Char.isDigit ('.' :: d :: (fraction ++ b :: t)) := by
    rintro e t ⟨⟩
    rfl
  have htake := (takeWhile_append_of_ends hothers (ends_of_isBlank hblank (by decide) t)).1
  rw [append_assoc, cons_append, cons_append, scan_number hdigits hpoint, ofNumber, if_pos hd, htake, h]

theorem scan_blank_of_ofNumber {more : List Char} (hdigits : ∀ d ∈ c :: digits, d.isDigit = true)
    (hblank : isBlank b = true) (h : ofNumber (c :: digits) more = .token kind lexeme) :
    ∃ more, lexeme = c :: more ∧ scan c (more ++ b :: t) = .token kind (c :: more) := by
  unfold ofNumber at h
  split at h
  · next d others =>
    split at h
    · next hd =>
      refine scan_blank_of_ofFloat hdigits ?_ hblank h
      exact forall_mem_cons.2 ⟨hd, all_eq_true.1 all_takeWhile⟩
    · exact scan_blank_of_ofInteger hdigits hblank h
  · exact scan_blank_of_ofInteger hdigits hblank h

theorem scan_blank_of_ofString (h : ofString rest = .token kind lexeme) (b : Char) (t : List Char) :
    ∃ more, lexeme = '"' :: more ∧ scan '"' (more ++ b :: t) = .token kind ('"' :: more) := by
  unfold ofString at h
  split at h <;> cases h
  next value read hscan =>
  obtain ⟨text, rfl, htext, _⟩ := quoted_of_scanString hscan
  have hstring : ∀ text, scan '"' text = ofString text := fun _ => rfl
  refine ⟨text ++ ['"'], rfl, ?_⟩
  rw [append_assoc, singleton_append, hstring, ofString, htext.scanString]

theorem scan_blank_of_ofSymbol (hstarts : startsSymbol c = true) (h : ofSymbol c rest = .token kind lexeme)
    (hblank : isBlank b = true) (t : List Char) :
    ∃ more, lexeme = c :: more ∧ scan c (more ++ b :: t) = .token kind (c :: more) := by
  obtain ⟨hspells, hstands, _⟩ := munches_of_ofSymbol hstarts h
  have hlead : Lead.mark = kind.lead := (leadOf_of_startsSymbol hstarts).symm.trans (hspells.lead_eq hstands)
  cases hspells with
  | symbol mark =>
    obtain ⟨d, more, hspelling, hscan⟩ := scan_symbol mark (ends_of_isBlank hblank mark.joins_blank t)
    rw [hspelling] at hstands ⊢
    obtain ⟨rfl, _⟩ := cons_prefix_cons.1 hstands
    exact ⟨more, rfl, hscan⟩
  | identifier | keyword | integer | float | string => cases hlead

/-- A token is read again from its lexeme if a blank follows. -/
theorem scan_blank (h : scan c rest = .token kind lexeme) (hblank : isBlank b = true) (t : List Char) :
    ∃ more, lexeme = c :: more ∧ scan c (more ++ b :: t) = .token kind (c :: more) := by
  have hscanned := scanned_scan c rest
  rw [h] at hscanned
  generalize hpiece : Piece.token kind lexeme = piece at hscanned
  cases hscanned with
  | blank | lineComment | blockComment | openComment => cases hpiece
  | word rest hstart =>
    have hmore : ∀ d ∈ rest.takeWhile isIdentifierPart, isIdentifierPart d = true := all_eq_true.1 all_takeWhile
    obtain ⟨rfl, _⟩ := lexeme_of_ofIdentifier hstart hmore hpiece.symm
    exact ⟨_, rfl, (scan_word hstart hmore (ends_of_isBlank hblank (by decide) t)).trans hpiece.symm⟩
  | number rest hdigit =>
    refine scan_blank_of_ofNumber ?_ hblank hpiece.symm
    rintro d (_ | ⟨_, hd⟩)
    · exact hdigit
    · exact all_eq_true.1 all_takeWhile d hd
  | string => exact scan_blank_of_ofString hpiece.symm b t
  | symbol hstarts => exact scan_blank_of_ofSymbol hstarts hpiece.symm hblank t

end Piece

/-- Every token of a text was read by a scan. -/
theorem exists_scan_of_lexFrom {file : String} {budget : Nat} {cursor : Cursor} {token : Token}
    (h : token ∈ (lexFrom file budget cursor).tokens) :
    ∃ c rest, Piece.scan c rest = .token token.kind token.lexeme.toList := by
  induction budget generalizing cursor with
  | zero => cases h
  | succ budget ih =>
    unfold lexFrom at h
    split at h
    · cases h
    next c rest _ =>
    split at h
    · exact ih h
    · next kind lexeme hscan =>
      cases h with
      | head => exact ⟨c, rest, by rw [hscan, String.toList_ofList]⟩
      | tail _ h => exact ih h
    · cases h

/-- Lexemes that are set apart by gaps are read as the tokens they were. -/
theorem Yields.laidOut {tokens : List Token} {gaps : List (List Char)}
    (htokens : ∀ token ∈ tokens, ∃ c rest, Piece.scan c rest = .token token.kind token.lexeme.toList)
    (hgaps : ∀ gap ∈ gaps, Gap gap) (hlength : gaps.length = tokens.length) :
    Yields (Smpl.laidOut tokens gaps) (tokens.map Token.shape) := by
  induction tokens generalizing gaps with
  | nil =>
    cases length_eq_zero_iff.1 hlength
    exact .nil
  | cons token tokens ih =>
    cases gaps with
    | nil => cases hlength
    | cons gap gaps =>
      obtain ⟨⟨c, rest, hscan⟩, htokens⟩ := forall_mem_cons.1 htokens
      obtain ⟨⟨hseparates, b, t, rfl, hblank⟩, hafter⟩ := forall_mem_cons.1 hgaps
      have hothers := (ih htokens hafter (Nat.succ.inj hlength)).separator hseparates
      obtain ⟨more, hlexeme, hagain⟩ := Piece.scan_blank hscan hblank (t ++ Smpl.laidOut tokens gaps)
      have hread := Yields.token hagain hothers
      rw [← hlexeme, String.ofList_toList] at hread
      rw [Smpl.laidOut, zipWith_cons_cons, flatten_cons, append_assoc]
      exact hread

/-- Lexemes with other gaps between them are read as the same tokens. -/
theorem exists_stream_of_laidOut {file file' : String} {source lead : List Char} {stream : TokenStream}
    {gaps : List (List Char)} (h : tokenize file source = .ok stream) (hlead : Separator lead)
    (hgaps : ∀ gap ∈ gaps, Gap gap) (hlength : gaps.length = stream.tokens.length) :
    ∃ stream', tokenize file' (lead ++ laidOut stream.tokens gaps) = .ok stream' ∧
      stream'.tokens.map Token.shape = stream.tokens.map Token.shape := by
  obtain ⟨_, htokens⟩ := tokenize_eq_ok_iff.1 h
  have hscans (token : Token) (hmem : token ∈ stream.tokens) := exists_scan_of_lexFrom (htokens ▸ hmem)
  obtain ⟨tokens, finish, hlexed, hshapes⟩ :=
    (Yields.laidOut hscans hgaps hlength).separator hlead file' _ (Cursor.start _) (Nat.le_refl _) rfl
  exact ⟨⟨tokens, finish⟩, tokenize_eq_ok_iff.2 ⟨congrArg Lexed.ending hlexed, congrArg Lexed.tokens hlexed⟩, hshapes⟩

end Smpl
