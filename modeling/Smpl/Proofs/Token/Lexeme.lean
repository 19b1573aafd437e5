import Smpl.Proofs.Print.Literal

namespace Smpl

open List

variable {c : Char} {kind : TokenKind} {text value taken : List Char} {mark : Symbol}

theorem isIdentifierPart_of_isDigit (h : c.isDigit = true) : isIdentifierPart c = true := by
  have halphanum : c.isAlphanum = (c.isAlpha || c.isDigit) := rfl
  rw [isIdentifierPart, halphanum, h, Bool.or_true, Bool.true_or]

theorem isIdentifierPart_of_isIdentifierStart (h : isIdentifierStart c = true) : isIdentifierPart c = true := by
  have halphanum : c.isAlphanum = (c.isAlpha || c.isDigit) := rfl
  rw [isIdentifierStart, Bool.or_eq_true] at h
  rw [isIdentifierPart, halphanum, Bool.or_eq_true, Bool.or_eq_true]
  exact h.imp_left .inl

/-- How a name is spelled: it starts as a word does, goes on as one, and is no reserved word. -/
theorem exists_of_isName {name : String} (h : isName name = true) :
    ∃ c more, name.toList = c :: more ∧ isIdentifierStart c = true ∧ (∀ d ∈ c :: more, isIdentifierPart d = true) ∧
      ∀ word : Keyword, name ≠ word.spelling := by
  unfold isName at h
  split at h
  · cases h
  next c more hlist =>
  simp only [Bool.and_eq_true, all_eq_true, Option.isNone_iff_eq_none] at h
  obtain ⟨⟨hstart, hmore⟩, hkeyword⟩ := h
  refine ⟨c, more, hlist, hstart, forall_mem_cons.2 ⟨isIdentifierPart_of_isIdentifierStart hstart, hmore⟩, ?_⟩
  rintro word rfl
  obtain ⟨_, _, _, _, _, hword⟩ := word.spelling_spec
  rw [hword] at hkeyword
  cases hkeyword

/-- The inside of a string literal and the characters it denotes. -/
inductive Quoted : List Char → List Char → Prop
  | nil : Quoted [] []
  | plain {c : Char} {value text : List Char} :
    c ≠ '"' → c ≠ '\\' → c ≠ '\n' → Quoted value text → Quoted (c :: value) (c :: text)
  | escape {c denoted : Char} {value text : List Char} :
    escapeValue? c = some denoted → Quoted value text → Quoted (denoted :: value) ('\\' :: c :: text)

/-- The texts of each kind of token. Literals are not bounded here, so that a number is taken as far as
    it goes and refused as a whole. -/
inductive TokenKind.Lexeme : TokenKind → List Char → Prop
  | identifier {c : Char} {more : List Char} :
    isIdentifierStart c = true → (∀ d ∈ more, isIdentifierPart d = true) →
    Keyword.ofSpelling? (String.ofList (c :: more)) = none →
    Lexeme (.identifier (String.ofList (c :: more))) (c :: more)
  | keyword (word : Keyword) : Lexeme (.keyword word) word.spelling.toList
  | integer {digits : List Char} :
    digits ≠ [] → (∀ d ∈ digits, d.isDigit = true) → Lexeme (.integer (Nat.ofDigitChars 10 digits 0)) digits
  | float {whole fraction : List Char} :
    whole ≠ [] → fraction ≠ [] → (∀ d ∈ whole, d.isDigit = true) → (∀ d ∈ fraction, d.isDigit = true) →
    Lexeme (.float (Double.ofDigits whole fraction)) (whole ++ '.' :: fraction)
  | string {value text : List Char} :
    Quoted value text → Lexeme (.string (String.ofList value)) ('"' :: text ++ ['"'])
  | symbol (mark : Symbol) : Lexeme (.symbol mark) mark.spelling.toList

/-- A lexeme that stands at the start of a text and is as long as any that does. -/
structure TokenKind.Munches (kind : TokenKind) (lexeme text : List Char) : Prop where
  spells : kind.Lexeme lexeme
  stands : lexeme <+: text
  longest : ∀ other taken, TokenKind.Lexeme other taken → taken <+: text → taken.length ≤ lexeme.length

/-- What the first character of a token tells about it. -/
inductive Lead
  | word
  | number
  | quote
  | mark

def leadOf (c : Char) : Lead :=
  if isIdentifierStart c then .word else if c.isDigit then .number else if c = '"' then .quote else .mark

def TokenKind.lead : TokenKind → Lead
  | .identifier _ | .keyword _ => .word
  | .integer _ | .float _ => .number
  | .string _ => .quote
  | .symbol _ => .mark

theorem leadOf_of_isIdentifierStart (h : isIdentifierStart c = true) : leadOf c = .word :=
  if_pos h

theorem leadOf_of_isDigit (h : c.isDigit = true) : leadOf c = .number := by
  simp [leadOf, h, not_isIdentifierStart_of_isDigit h]

theorem leadOf_of_startsSymbol (h : startsSymbol c = true) : leadOf c = .mark := by
  simp only [startsSymbol, Bool.and_eq_true, Bool.not_eq_true', decide_eq_true_eq] at h
  simp [leadOf, h]

theorem TokenKind.Lexeme.lead (h : kind.Lexeme text) : ∃ c more, text = c :: more ∧ leadOf c = kind.lead := by
  cases h with
  | identifier hstart => exact ⟨_, _, rfl, leadOf_of_isIdentifierStart hstart⟩
  | keyword word =>
    obtain ⟨c, more, htext, hstart, _⟩ := word.spelling_spec
    exact ⟨c, more, htext, leadOf_of_isIdentifierStart hstart⟩
  | @integer digits hne hdigits =>
    obtain ⟨c, more, rfl⟩ := exists_cons_of_ne_nil hne
    exact ⟨c, more, rfl, leadOf_of_isDigit (hdigits c mem_cons_self)⟩
  | @float whole fraction hne _ hdigits =>
    obtain ⟨c, more, rfl⟩ := exists_cons_of_ne_nil hne
    exact ⟨c, _, rfl, leadOf_of_isDigit (hdigits c mem_cons_self)⟩
  | string => exact ⟨_, _, rfl, rfl⟩
  | symbol mark =>
    obtain ⟨c, htext, hstarts, _⟩ | ⟨c, d, htext, hstarts, _⟩ := mark.spelling_spec
    · exact ⟨c, [], htext, leadOf_of_startsSymbol hstarts⟩
    · exact ⟨c, [d], htext, leadOf_of_startsSymbol hstarts⟩

theorem Symbol.toList_spelling_of_ofChar? (h : Symbol.ofChar? c = some mark) : mark.spelling.toList = [c] := by
  unfold Symbol.ofChar? at h
  split at h <;> cases h <;> rfl

theorem Symbol.toList_spelling_of_ofPair? {d : Char} (h : Symbol.ofPair? c d = some mark) :
    mark.spelling.toList = [c, d] := by
  unfold Symbol.ofPair? at h
  split at h <;> cases h <;> rfl

/-- Lexemes at the start of one text are of kinds that start alike. -/
theorem TokenKind.Lexeme.lead_eq {rest : List Char} (h : kind.Lexeme taken) (hstands : taken <+: c :: rest) :
    leadOf c = kind.lead := by
  obtain ⟨d, more, rfl, hlead⟩ := h.lead
  rw [← (cons_prefix_cons.1 hstands).1, hlead]

/-- A run of characters of a class is no longer than the whole run at the start of a text. -/
theorem length_le_of_run {p : Char → Bool} {run : List Char} (hrun : ∀ c ∈ run, p c = true) (hstands : run <+: text) :
    run.length ≤ (text.takeWhile p).length := by
  obtain ⟨rest, rfl⟩ := hstands
  rw [takeWhile_append_of_pos hrun]
  simp

theorem ends_dropWhile (p : Char → Bool) (text : List Char) : Ends p (text.dropWhile p) := by
  intro c t h
  have hhead := head?_dropWhile_not p text
  rw [h] at hhead
  simpa using hhead

namespace Piece

variable {kind : TokenKind} {lexeme rest : List Char} {c : Char} {more digits : List Char}

theorem lexeme_of_ofIdentifier (hstart : isIdentifierStart c = true) (hmore : ∀ d ∈ more, isIdentifierPart d = true)
    (h : ofIdentifier (c :: more) = .token kind lexeme) : lexeme = c :: more ∧ kind.Lexeme lexeme := by
  unfold ofIdentifier at h
  dsimp only at h
  split at h
  · next word hword =>
    cases h
    have hspelling := find?_some hword
    simp only [decide_eq_true_eq] at hspelling
    refine ⟨rfl, ?_⟩
    have := TokenKind.Lexeme.keyword word
    rwa [hspelling, String.toList_ofList] at this
  · next hword =>
    cases h
    exact ⟨rfl, .identifier hstart hmore hword⟩

/-- A word is taken up to the first character that no word has. -/
theorem munches_of_ofIdentifier (hstart : isIdentifierStart c = true)
    (h : ofIdentifier (c :: rest.takeWhile isIdentifierPart) = .token kind lexeme) :
    kind.Munches lexeme (c :: rest) := by
  obtain ⟨rfl, hlexeme⟩ :=
    lexeme_of_ofIdentifier hstart (all_eq_true.1 all_takeWhile) h
  refine ⟨hlexeme, cons_prefix_cons.2 ⟨rfl, takeWhile_prefix _⟩, ?_⟩
  intro other taken hother hstands
  have hlead : Lead.word = other.lead :=
    (leadOf_of_isIdentifierStart hstart).symm.trans (hother.lead_eq hstands)
  have hword : ∃ d more, taken = d :: more ∧ ∀ e ∈ more, isIdentifierPart e = true := by
    cases hother with
    | identifier _ hmore => exact ⟨_, _, rfl, hmore⟩
    | keyword word =>
      obtain ⟨d, more, htext, _, hmore, _⟩ := word.spelling_spec
      exact ⟨d, more, htext, hmore⟩
    | integer | float | string | symbol => cases hlead
  obtain ⟨d, more, rfl, hmore⟩ := hword
  exact Nat.succ_le_succ (length_le_of_run hmore (cons_prefix_cons.1 hstands).2)

/-- A point after digits divides a number only where digits end. -/
theorem eq_run_of_point {whole tail : List Char} (hwhole : ∀ d ∈ whole, d.isDigit = true)
    (hstands : whole ++ '.' :: tail <+: digits ++ more) (hdigits : ∀ d ∈ digits, d.isDigit = true)
    (hmore : Ends Char.isDigit more) : whole = digits ∧ '.' :: tail <+: more := by
  obtain ⟨rest, hrest⟩ := hstands
  have hpoint : Ends Char.isDigit ('.' :: (tail ++ rest)) := by
    rintro d t ⟨⟩
    rfl
  have htake := takeWhile_append_of_ends hwhole hpoint
  rw [append_assoc, cons_append] at hrest
  rw [hrest, (takeWhile_append_of_ends hdigits hmore).1, (takeWhile_append_of_ends hdigits hmore).2] at htake
  exact ⟨htake.1.symm, rest, by rw [cons_append, htake.2]⟩

/-- Lexemes that start with a digit: they are no longer than the digits, or the digits are followed by
    a point and more of them. -/
theorem number_of_stands {other : TokenKind} (hdigits : ∀ d ∈ digits, d.isDigit = true)
    (hne : digits ≠ []) (hmore : Ends Char.isDigit more) (hother : other.Lexeme taken)
    (hstands : taken <+: digits ++ more) :
    taken.length ≤ digits.length ∨ ∃ fraction, fraction ≠ [] ∧ (∀ d ∈ fraction, d.isDigit = true) ∧
      '.' :: fraction <+: more ∧ taken.length = digits.length + 1 + fraction.length := by
  obtain ⟨c, others, rfl⟩ := exists_cons_of_ne_nil hne
  have hlead : Lead.number = other.lead :=
    (leadOf_of_isDigit (hdigits c mem_cons_self)).symm.trans (hother.lead_eq hstands)
  cases hother with
  | integer _ htaken =>
    refine .inl (Nat.le_trans (length_le_of_run htaken hstands) (Nat.le_of_eq ?_))
    rw [(takeWhile_append_of_ends hdigits hmore).1]
  | @float whole fraction _ hfraction hwhole htail =>
    obtain ⟨rfl, hpoint⟩ := eq_run_of_point hwhole hstands hdigits hmore
    exact .inr ⟨fraction, hfraction, htail, hpoint, by simp; omega⟩
  | identifier | keyword | string | symbol => cases hlead

theorem munches_of_ofInteger (hdigits : ∀ d ∈ digits, d.isDigit = true) (hne : digits ≠ [])
    (hmore : Ends Char.isDigit more) (hpoint : ∀ d t, more = '.' :: d :: t → d.isDigit = false)
    (h : ofInteger digits = .token kind lexeme) : kind.Munches lexeme (digits ++ more) := by
  unfold ofInteger at h
  split at h
  · cases h
  dsimp only at h
  split at h
  · cases h
    refine ⟨.integer hne hdigits, prefix_append _ _, ?_⟩
    intro other taken hother hstands
    obtain hle | ⟨fraction, hfraction, htail, ⟨t, ht⟩, _⟩ := number_of_stands hdigits hne hmore hother hstands
    · exact hle
    · obtain ⟨d, others, rfl⟩ := exists_cons_of_ne_nil hfraction
      have hd := hpoint d (others ++ t) ht.symm
      rw [htail d mem_cons_self] at hd
      cases hd
  · cases h

theorem munches_of_ofFloat (hdigits : ∀ d ∈ digits, d.isDigit = true) (hne : digits ≠ [])
    (hfraction : more.takeWhile Char.isDigit ≠ [])
    (h : ofFloat digits (more.takeWhile Char.isDigit) = .token kind lexeme) :
    kind.Munches lexeme (digits ++ '.' :: more) := by
  unfold ofFloat at h
  dsimp only at h
  split at h
  · cases h
  · cases h
    refine ⟨.float hne hfraction hdigits (all_eq_true.1 all_takeWhile), ?_, ?_⟩
    · exact (prefix_append_right_inj digits).2
        (cons_prefix_cons.2 ⟨rfl, takeWhile_prefix _⟩)
    · intro other taken hother hstands
      have hends : Ends Char.isDigit ('.' :: more) := by
        rintro d t ⟨⟩
        rfl
      obtain hle | ⟨fraction, _, htail, hpoint, hlength⟩ := number_of_stands hdigits hne hends hother hstands
      · rw [length_append]
        exact Nat.le_add_right_of_le hle
      · have := length_le_of_run htail (cons_prefix_cons.1 hpoint).2
        simp only [length_append, length_cons]
        omega

/-- A number is taken with all its digits, and with a point only where digits follow. -/
theorem munches_of_ofNumber (hdigits : ∀ d ∈ digits, d.isDigit = true) (hne : digits ≠ [])
    (hmore : Ends Char.isDigit more) (h : ofNumber digits more = .token kind lexeme) :
    kind.Munches lexeme (digits ++ more) := by
  unfold ofNumber at h
  split at h
  · next d rest =>
    split at h
    · next hd =>
      refine munches_of_ofFloat hdigits hne ?_ ?_
      · simp [hd]
      · simpa [hd] using h
    · next hd =>
      refine munches_of_ofInteger hdigits hne hmore ?_ h
      rintro e t ⟨⟩
      simpa using hd
  · next hpoint =>
    exact munches_of_ofInteger hdigits hne hmore (fun d t heq => absurd heq (hpoint d t)) h

end Piece

/-- What is written inside quotes is read up to the closing quote. -/
theorem Quoted.scanString (h : Quoted value text) (rest : List Char) :
    Smpl.scanString (text ++ '"' :: rest) = .closed value (text ++ ['"']) := by
  induction h with
  | nil => rfl
  | plain hquote hbackslash hnewline _ ih =>
    rw [cons_append, Smpl.scanString, ih]
    · rfl
    · exact hquote
    · exact hnewline
    · exact fun h _ => hbackslash h
    · exact fun _ _ h _ => hbackslash h
  | escape hdenoted _ ih => simp [Smpl.scanString, hdenoted, ih, StringEnd.prepend]

theorem StringEnd.eq_closed_of_prepend {read : List Char} {ending : StringEnd}
    (h : ending.prepend c text = .closed value read) :
    ∃ values tail, ending = .closed values tail ∧ value = c :: values ∧ read = text ++ tail := by
  cases ending with
  | closed values tail =>
    cases h
    exact ⟨values, tail, rfl, rfl, rfl⟩
  | unclosed | unknownEscape => cases h

/-- A closed literal is what is written inside quotes, up to its closing quote. -/
theorem quoted_of_scanString {rest read : List Char} (h : scanString rest = .closed value read) :
    ∃ text, read = text ++ ['"'] ∧ Quoted value text ∧ read <+: rest := by
  induction rest using scanString.induct generalizing value read with
  | case1 => cases h
  | case2 rest =>
    cases h
    exact ⟨[], rfl, .nil, rest, rfl⟩
  | case3 => cases h
  | case4 => cases h
  | case5 c rest denoted hdenoted ih =>
    simp only [scanString, hdenoted] at h
    obtain ⟨values, tail, hscan, rfl, rfl⟩ := StringEnd.eq_closed_of_prepend h
    obtain ⟨text, rfl, htext, hstands⟩ := ih hscan
    exact ⟨'\\' :: c :: text, rfl, .escape hdenoted htext, by simpa using hstands⟩
  | case6 c rest hunknown =>
    simp only [scanString, hunknown] at h
    cases h
  | case7 c rest hquote hnewline hlast hescape ih =>
    rw [scanString] at h
    · obtain ⟨values, tail, hscan, rfl, rfl⟩ := StringEnd.eq_closed_of_prepend h
      obtain ⟨text, rfl, htext, hstands⟩ := ih hscan
      refine ⟨c :: text, rfl, .plain hquote ?_ hnewline htext, by simpa using hstands⟩
      rintro rfl
      cases rest with
      | nil => exact hlast rfl rfl
      | cons d t => exact hescape d t rfl rfl
    all_goals assumption

namespace Piece

variable {kind : TokenKind} {lexeme rest : List Char} {c : Char}

/-- Only one lexeme can stand at a quote: the literal up to its closing quote. -/
theorem munches_of_ofString (h : ofString rest = .token kind lexeme) : kind.Munches lexeme ('"' :: rest) := by
  unfold ofString at h
  split at h <;> cases h
  next value read hscan =>
  obtain ⟨text, rfl, htext, hread⟩ := quoted_of_scanString hscan
  refine ⟨.string htext, cons_prefix_cons.2 ⟨rfl, hread⟩, ?_⟩
  intro other taken hother hstands
  have hlead : Lead.quote = other.lead := hother.lead_eq hstands
  cases hother with
  | @string value' text' hquoted =>
    rw [cons_append, cons_prefix_cons] at hstands
    obtain ⟨_, more, hmore⟩ := hstands
    have hsame := hquoted.scanString more
    rw [append_assoc, singleton_append] at hmore
    rw [hmore, hscan] at hsame
    injection hsame with _ hread
    rw [cons_append, ← hread]
  | identifier | keyword | integer | float | symbol => cases hlead

theorem mark_of_stands {other : TokenKind} (hc : startsSymbol c = true)
    (hother : other.Lexeme taken) (hstands : taken <+: c :: rest) :
    taken.length = 1 ∨ taken.length = 2 ∧ ∃ mark, rest.head?.bind (Symbol.ofPair? c) = some mark := by
  have hlead : Lead.mark = other.lead := (leadOf_of_startsSymbol hc).symm.trans (hother.lead_eq hstands)
  cases hother with
  | symbol mark =>
    obtain ⟨d, htext, _⟩ | ⟨d, e, htext, _, _, hpair⟩ := mark.spelling_spec
    · exact .inl (by rw [htext]; rfl)
    · rw [htext] at hstands ⊢
      obtain ⟨rfl, t, rfl⟩ := cons_prefix_cons.1 hstands
      exact .inr ⟨rfl, mark, hpair⟩
  | identifier | keyword | integer | float | string => cases hlead

/-- A mark of two characters is taken wherever there is one. -/
theorem munches_of_ofSymbol (hc : startsSymbol c = true) (h : ofSymbol c rest = .token kind lexeme) :
    kind.Munches lexeme (c :: rest) := by
  unfold ofSymbol at h
  split at h
  · next mark next rest hpair =>
    cases h
    have hspelling : mark.spelling.toList = [c, next] := Symbol.toList_spelling_of_ofPair? hpair
    refine ⟨hspelling ▸ .symbol mark, ⟨_, rfl⟩, ?_⟩
    intro other taken hother hstands
    obtain hone | ⟨htwo, _⟩ := mark_of_stands hc hother hstands <;> simp [*]
  · next hpair =>
    split at h <;> cases h
    next mark hmark =>
    have hspelling : mark.spelling.toList = [c] := Symbol.toList_spelling_of_ofChar? hmark
    refine ⟨hspelling ▸ .symbol mark, ⟨_, rfl⟩, ?_⟩
    intro other taken hother hstands
    obtain hone | ⟨_, mark', hmark'⟩ := mark_of_stands hc hother hstands
    · simp [hone]
    · obtain ⟨d, hd, _⟩ := Option.bind_eq_some_iff.1 hmark'
      obtain ⟨t, rfl⟩ := head?_eq_some_iff.1 hd
      exact absurd rfl (hpair mark' d t hmark')

/-- How a piece is read, by the characters it starts with. -/
inductive Scanned : Char → List Char → Piece → Prop
  | blank {c : Char} (rest : List Char) : isBlank c = true → Scanned c rest (.trivia [c])
  | word {c : Char} (rest : List Char) :
    isIdentifierStart c = true → Scanned c rest (.ofIdentifier (c :: rest.takeWhile isIdentifierPart))
  | number {c : Char} (rest : List Char) :
    c.isDigit = true →
    Scanned c rest (.ofNumber (c :: rest.takeWhile Char.isDigit) (rest.dropWhile Char.isDigit))
  | string (rest : List Char) : Scanned '"' rest (.ofString rest)
  | lineComment (rest : List Char) :
    Scanned '/' ('/' :: rest) (.trivia ('/' :: '/' :: rest.takeWhile (· ≠ '\n')))
  | blockComment {rest text : List Char} :
    closeComment rest = some text → Scanned '/' ('*' :: rest) (.trivia ('/' :: '*' :: text))
  | openComment {rest : List Char} (fault : ScanFault) :
    closeComment rest = none → Scanned '/' ('*' :: rest) (.fault fault)
  | symbol {c : Char} {rest : List Char} :
    startsSymbol c = true → (c = '/' → Ends (fun d => d = '/' || d = '*') rest) → Scanned c rest (.ofSymbol c rest)

/-- Every step of the scanner has one of the described outcomes. -/
theorem scanned_scan (c : Char) (rest : List Char) : Scanned c rest (scan c rest) := by
  unfold scan
  split
  · next hblank => exact .blank rest hblank
  split
  · next hstart => exact .word rest hstart
  split
  · next hdigit => exact .number rest hdigit
  split
  · exact .string rest
  · exact .lineComment _
  · split
    · next hclose => exact .blockComment hclose
    · next hclose => exact .openComment _ hclose
  · next hblank hstart hdigit _ _ hquote hline hblock =>
    refine .symbol ?_ ?_
    · simpa [startsSymbol, hblank, hstart, hdigit] using fun h => hquote h
    · rintro rfl d t rfl
      rw [Bool.eq_false_iff]
      intro hd
      simp only [Bool.or_eq_true, decide_eq_true_eq] at hd
      obtain rfl | rfl := hd
      · exact hline t rfl rfl
      · exact hblock t rfl rfl

/-- A token that is read is the longest at its place. -/
theorem munches_of_scan (h : scan c rest = .token kind lexeme) : kind.Munches lexeme (c :: rest) := by
  have hscanned := scanned_scan c rest
  rw [h] at hscanned
  generalize hpiece : Piece.token kind lexeme = piece at hscanned
  cases hscanned with
  | blank | lineComment | blockComment | openComment => cases hpiece
  | word _ hstart => exact munches_of_ofIdentifier hstart hpiece.symm
  | number _ hdigit =>
    have hdigits : ∀ d ∈ c :: rest.takeWhile Char.isDigit, d.isDigit = true :=
      forall_mem_cons.2 ⟨hdigit, all_eq_true.1 all_takeWhile⟩
    have hmunches := munches_of_ofNumber hdigits (cons_ne_nil _ _) (ends_dropWhile _ rest) hpiece.symm
    rwa [cons_append, takeWhile_append_dropWhile] at hmunches
  | string => exact munches_of_ofString hpiece.symm
  | symbol hstarts => exact munches_of_ofSymbol hstarts hpiece.symm

end Piece

end Smpl
