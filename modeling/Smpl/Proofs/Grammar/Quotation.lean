import Smpl.Proofs.Grammar.Prefix

namespace Smpl

open List

namespace Text

variable {row : List Char} {c : Char}

/-- A line without the return that may end it. -/
def dropReturn (row : List Char) : List Char :=
  if row.getLast? = some '\r' then row.dropLast else row

/-- What becomes of one line when the text is cut at all breaks. -/
def cuts (row : List Char) : List (List Char) :=
  (dropReturn row).splitOnP isLineBreak

theorem eq_or_eq_append_dropReturn (row : List Char) : row = dropReturn row ∨ row = dropReturn row ++ ['\r'] := by
  unfold dropReturn
  split
  · next hlast =>
    obtain ⟨front, rfl⟩ := getLast?_eq_some_iff.1 hlast
    exact .inr (by rw [dropLast_concat])
  · exact .inl rfl

theorem dropReturn_cons (h : row = [] → c ≠ '\r') : dropReturn (c :: row) = c :: dropReturn row := by
  cases row with
  | nil => simp [dropReturn, h rfl]
  | cons d row =>
    unfold dropReturn
    rw [getLast?_cons_cons]
    split <;> rfl

/-- A break cuts a line in two. -/
theorem cuts_cons (h : row = [] → c ≠ '\r') :
    cuts (c :: row) = if isLineBreak c then [] :: cuts row else (cuts row).modifyHead (c :: ·) := by
  rw [cuts, dropReturn_cons h, splitOnP_cons_eq_if_modifyHead]
  rfl

theorem lines_eq_nil_iff {text : List Char} : lines text = [] ↔ text = [] := by
  fun_cases lines text <;> simp_all

theorem ne_of_not_isLineBreak (h : ¬ isLineBreak c = true) : c ≠ '\n' ∧ c ≠ '\r' := by
  constructor <;> rintro rfl <;> exact h rfl

/-- A character that ends no line belongs to the first line of the text that it is put in front of. -/
theorem exists_splitOn_cons (hc : c ≠ '\n') (rest : List Char) :
    ∃ row rows, rest.splitOn '\n' = row :: rows ∧ (c :: rest).splitOn '\n' = (c :: row) :: rows ∧
      (row = [] → rest = [] ∨ ∃ more, rest = '\n' :: more) := by
  have hhead := head?_splitOn rest
  obtain ⟨row, rows, hrows⟩ := exists_cons_of_ne_nil (splitOnP_ne_nil (· == '\n') rest)
  have hrows : rest.splitOn '\n' = row :: rows := hrows
  rw [hrows, head?_cons, Option.some.injEq] at hhead
  refine ⟨row, rows, hrows, by rw [splitOn_cons_eq_if_modifyHead, if_neg (by simpa using hc), hrows]; rfl, ?_⟩
  rintro rfl
  cases rest with
  | nil => exact .inl rfl
  | cons d more =>
    by_cases hd : d = '\n'
    · exact .inr ⟨more, by rw [hd]⟩
    · simp [hd] at hhead

/-- The lines to quote from are what the lines between line feeds are cut into. A last line that is empty is not among
    them. -/
theorem lines_prefix_cuts (text : List Char) : lines text <+: (text.splitOn '\n').flatMap cuts := by
  induction text using lines.induct with
  | case1 => exact nil_prefix
  | case2 rest ih =>
    have hrows : ('\r' :: '\n' :: rest).splitOn '\n' = ['\r'] :: rest.splitOn '\n' := by
      rw [splitOn_cons_eq_if_modifyHead, splitOn_cons_eq_if_modifyHead]
      rfl
    rw [hrows, lines]
    exact cons_prefix_cons.2 ⟨rfl, ih⟩
  | case3 c rest hreturn hbreak ih =>
    rw [lines.eq_3 _ _ hreturn, if_pos hbreak]
    by_cases hc : c = '\n'
    · rw [hc, splitOn_cons_eq_if_modifyHead, if_pos (by decide)]
      exact cons_prefix_cons.2 ⟨rfl, ih⟩
    · obtain ⟨row, rows, hrows, hcons, hempty⟩ := exists_splitOn_cons hc rest
      rw [hcons]
      rw [hrows] at ih
      by_cases hlast : rest = [] ∧ c = '\r'
      · obtain ⟨rfl, rfl⟩ := hlast
        cases hrows
        exact prefix_rfl
      · have hkept : row = [] → c ≠ '\r' := by
          intro hrow hc
          obtain hrest | ⟨more, hrest⟩ := hempty hrow
          · exact hlast ⟨hrest, hc⟩
          · exact hreturn more hc hrest
        rw [flatMap_cons, cuts_cons hkept, if_pos hbreak]
        exact cons_prefix_cons.2 ⟨rfl, ih⟩
  | case4 c rest hreturn hbreak hnone ih =>
    cases lines_eq_nil_iff.1 hnone
    obtain ⟨hc, hkept⟩ := ne_of_not_isLineBreak hbreak
    have hrow : [c].splitOn '\n' = [[c]] := by
      rw [splitOn_cons_eq_if_modifyHead, if_neg (by simpa using hc)]
      rfl
    rw [lines.eq_3 _ _ hreturn, if_neg hbreak, hrow, flatMap_singleton, cuts_cons fun _ => hkept, if_neg hbreak]
    exact prefix_rfl
  | case5 c rest hreturn hbreak line others hsome ih =>
    obtain ⟨hc, hkept⟩ := ne_of_not_isLineBreak hbreak
    obtain ⟨row, rows, hrows, hcons, _⟩ := exists_splitOn_cons hc rest
    obtain ⟨first, pieces, hpieces⟩ := exists_cons_of_ne_nil (l := cuts row) (splitOnP_ne_nil _ _)
    rw [hsome, hrows, flatMap_cons, hpieces] at ih
    rw [lines.eq_3 _ _ hreturn, if_neg hbreak, hsome, hcons, flatMap_cons, cuts_cons fun _ => hkept, if_neg hbreak,
      hpieces]
    obtain ⟨rfl, hothers⟩ := cons_prefix_cons.1 ih
    exact cons_prefix_cons.2 ⟨rfl, hothers⟩

/-- The lines before one without a break in them are cut into themselves. -/
theorem getElem?_flatMap_cuts {rows : List (List Char)} {n : Nat} (hrow : rows[n]? = some row)
    (hwhole : ∀ row ∈ rows.take (n + 1), (dropReturn row).any isLineBreak = false) :
    (rows.flatMap cuts)[n]? = some (dropReturn row) := by
  induction rows generalizing n with
  | nil => cases hrow
  | cons first rows ih =>
    obtain ⟨hfirst, hothers⟩ := forall_mem_cons.1 hwhole
    have hcut : cuts first = [dropReturn first] := by
      apply splitOnP_eq_singleton
      simpa using hfirst
    rw [flatMap_cons, hcut, singleton_append]
    cases n with
    | zero =>
      cases hrow
      rfl
    | succ n => exact ih hrow hothers

end Text

/-- A token stands where the text before it ends. -/
theorem Tiles.location {file : String} {before rest : List Char} {tokens : List Token}
    (h : Tiles file before rest tokens)
    {token : Token} (hmem : token ∈ tokens) :
    ∃ passed more, before ++ rest = passed ++ more ∧ token.location = .after file passed := by
  induction h with
  | done => cases hmem
  | @token before trivia lexeme rest kind tokens _ _ _ _ ih =>
    cases hmem with
    | head => exact ⟨before ++ trivia, lexeme ++ rest, by rw [append_assoc], rfl⟩
    | tail _ hmem =>
      obtain ⟨passed, more, hpassed, hlocation⟩ := ih hmem
      exact ⟨passed, more, by rw [← hpassed]; simp only [append_assoc], hlocation⟩

/-- Where the tokens of a text are refused stands something of the text, or its end. -/
theorem ParseFault.exists_location {file : String} {source : List Char} {stream : TokenStream} {fault : ParseFault}
    {read : List Token} (hstream : tokenize file source = .ok stream) (htokens : stream.tokens = read ++ fault.rest)
    (lines : List String) :
    ∃ passed more, source = passed ++ more ∧
      (fault.diagnostic stream.finish lines).location = some (.after file passed) ∧
      (fault.diagnostic stream.finish lines).sourceLine = lines[passed.count '\n']? := by
  obtain ⟨htiles, hfinish⟩ := tiles_of_tokenize hstream
  have hplace : ∃ passed more, source = passed ++ more ∧
      (fault.rest.head?.map (·.location)).getD stream.finish = .after file passed := by
    cases hrest : fault.rest with
    | nil => exact ⟨source, [], (append_nil _).symm, hfinish⟩
    | cons token others => exact htiles.location (by simp [htokens, hrest])
  obtain ⟨passed, more, hsource, hplace⟩ := hplace
  refine ⟨passed, more, hsource, congrArg some hplace, ?_⟩
  have hline : (Location.after file passed).line = (1 + passed.count '\n' : Nat) := rfl
  unfold ParseFault.diagnostic
  dsimp only
  rw [hplace, hline, if_pos (by omega), Int.toNat_natCast, Nat.add_sub_cancel_left]

/-- A syntax error that quotes a line points into the source. It quotes from the lines that are cut at all breaks, and
    so the line that it points into, but for a return at its end, if up to there no line has a break in it. -/
theorem Module.quotesLine_of_ofSource {file source : String} {stream : TokenStream} {d : Diagnostic} {line : String}
    (hstream : tokenize file source.toList = .ok stream) (h : Module.ofSource file source = .error (.diagnostic d))
    (hline : d.sourceLine = some line) :
    ∃ (l c : Nat) (pointed : List Char),
      d.location = some ⟨file, l, c⟩ ∧ 1 ≤ l ∧ (source.toList.splitOn '\n')[l - 1]? = some pointed ∧
      1 ≤ c ∧ c ≤ pointed.length + 1 ∧
      ((source.toList.splitOn '\n').flatMap Text.cuts)[l - 1]? = some line.toList ∧
      ((∀ row ∈ (source.toList.splitOn '\n').take l, (Text.dropReturn row).any Text.isLineBreak = false) →
        pointed = line.toList ∨ pointed = line.toList ++ ['\r']) := by
  rw [Module.ofSource, hstream, ok_bind, Module.parse] at h
  cases hread : Module.ofTokens file stream with
  | ok module_ =>
    rw [hread] at h
    cases h
  | error fault =>
    rw [hread] at h
    cases h
    obtain ⟨read, htokens, _⟩ := Module.viable_of_ofTokens hread
    obtain ⟨passed, more, hsource, hlocation, hquoted⟩ := fault.exists_location hstream htokens (sourceLines source)
    have hpointed := getElem?_splitOn passed more
    rw [← hsource] at hpointed
    rw [hquoted, sourceLines, getElem?_map, Option.map_eq_some_iff] at hline
    obtain ⟨quoted, hcut, rfl⟩ := hline
    obtain ⟨others, hothers⟩ := Text.lines_prefix_cuts source.toList
    have hcut : ((source.toList.splitOn '\n').flatMap Text.cuts)[passed.count '\n']? = some quoted := by
      rw [← hothers, getElem?_append_left (List.getElem?_eq_some_iff.1 hcut).1, hcut]
    refine ⟨1 + passed.count '\n', 1 + (lastLine passed).length, lastLine passed ++ more.takeWhile (· ≠ '\n'), ?_,
      by omega, ?_, by omega, ?_, ?_, ?_⟩
    · rw [hlocation, Location.after, lastLine, length_reverse]
    · rw [Nat.add_sub_cancel_left, hpointed]
    · rw [length_append]
      omega
    · rw [Nat.add_sub_cancel_left, hcut, String.toList_ofList]
    · intro hwhole
      rw [Nat.add_comm] at hwhole
      rw [Text.getElem?_flatMap_cuts hpointed hwhole, Option.some.injEq] at hcut
      rw [String.toList_ofList, ← hcut]
      exact Text.eq_or_eq_append_dropReturn _

/-- An error on the second of two lines that end with a return. -/
theorem Module.quotesLine_of_ofSource_return :
    ∃ d line, Module.ofSource "m" "mod a;\r\nfn 1\r\n" = .error (.diagnostic d) ∧ d.sourceLine = some line ∧
      ∃ pointed, ("mod a;\r\nfn 1\r\n".toList.splitOn '\n')[1]? = some pointed ∧
        (pointed = line.toList ∨ pointed = line.toList ++ ['\r']) := by
  have htokens : (tokenize "m" "mod a;\r\nfn 1\r\n".toList).toOption.any (·.tokens.length = 5) = true := by
    decide +kernel
  have hread : (Module.ofSource "m" "mod a;\r\nfn 1\r\n" >>= fun _ => .ok ()) =
      .error (.diagnostic ⟨.missingToken "function name" (some "1"), some ⟨"m", 2, 4⟩, some "fn 1"⟩) := by
    decide +kernel
  have hread := Parse.eq_error_of_bind_ok hread
  obtain ⟨stream, hstream, _⟩ := exists_eq_ok_of_any htokens
  obtain ⟨l, c, pointed, hlocation, _, hpointed, _, _, _, hsame⟩ := Module.quotesLine_of_ofSource hstream hread rfl
  have hl : (2 : Int) = l := congrArg Location.line (Option.some.inj hlocation)
  obtain rfl : l = 2 := by omega
  exact ⟨_, _, hread, rfl, pointed, hpointed, hsame (by decide)⟩

/-- A form feed in a comment on the first line: what stands after it there is quoted for the second line. -/
theorem Module.not_quotesLine_of_form_feed :
    ∃ d, Module.ofSource "m" "// a\x0cb\n1" = .error (.diagnostic d) ∧ d.location = some ⟨"m", 2, 1⟩ ∧
      d.sourceLine = some "b" ∧ ("// a\x0cb\n1".toList.splitOn '\n')[1]? = some ['1'] := by
  have hread : (Module.ofSource "m" "// a\x0cb\n1" >>= fun _ => .ok ()) = .error (.diagnostic
      ⟨.unexpectedToken "1" (some Expected.item.text), some ⟨"m", 2, 1⟩, some "b"⟩) := by
    decide +kernel
  exact ⟨_, Parse.eq_error_of_bind_ok hread, rfl, rfl, by decide⟩

end Smpl
