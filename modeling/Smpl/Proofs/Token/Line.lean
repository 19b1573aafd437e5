import Smpl.Proofs.Failure.Reading
import Smpl.Proofs.Token.Tiling

namespace Smpl

open List

variable {digits : List Char} {file : String} {c : Char}

/-- What stands on the last line of a text. -/
def lastLine (before : List Char) : List Char :=
  (before.reverse.takeWhile (· ≠ '\n')).reverse

theorem lastLine_append_singleton (before : List Char) (c : Char) :
    lastLine (before ++ [c]) = if c = '\n' then [] else lastLine before ++ [c] := by
  by_cases hc : c = '\n' <;> simp [lastLine, hc]

theorem length_splitOn (text : List Char) : (text.splitOn '\n').length = text.count '\n' + 1 := by
  induction text with
  | nil => rfl
  | cons c text ih =>
    rw [splitOn_cons_eq_if_modifyHead]
    by_cases hc : c = '\n' <;> simp [hc, ih]

theorem head?_splitOn (text : List Char) : (text.splitOn '\n').head? = some (text.takeWhile (· ≠ '\n')) := by
  induction text with
  | nil => rfl
  | cons c text ih =>
    rw [splitOn_cons_eq_if_modifyHead]
    by_cases hc : c = '\n' <;> simp [hc, ih]

/-- The line of a place has as many lines before it as line feeds stand before the place. -/
theorem getElem?_splitOn (before rest : List Char) :
    ((before ++ rest).splitOn '\n')[before.count '\n']? = some (lastLine before ++ rest.takeWhile (· ≠ '\n')) := by
  induction before using List.reverseRecOn generalizing rest with
  | nil => simpa [lastLine, head?_eq_getElem?] using head?_splitOn rest
  | append_singleton before c ih =>
    rw [append_assoc, singleton_append, lastLine_append_singleton]
    by_cases hc : c = '\n'
    · have hhead := head?_splitOn rest
      rw [head?_eq_getElem?] at hhead
      rw [hc, splitOn_append_cons_self, getElem?_append_right (by simp [length_splitOn])]
      simpa [length_splitOn] using hhead
    · simpa [hc] using ih (c :: rest)

theorem Cursor.lineStart_past_start (before rest : List Char) :
    ((Cursor.start (before ++ rest)).past before).lineStart = lastLine before ++ rest := by
  induction before using List.reverseRecOn generalizing rest with
  | nil => rfl
  | append_singleton before c ih =>
    have hrest : ((Cursor.start (before ++ c :: rest)).past before).rest = c :: rest := Cursor.rest_past rfl
    rw [append_assoc, singleton_append, Cursor.past, foldl_append, lastLine_append_singleton]
    change (((Cursor.start (before ++ c :: rest)).past before).step c).lineStart = _
    unfold Cursor.step
    by_cases hc : c = '\n'
    · subst hc
      simp [hrest]
    · simpa [hc] using ih (c :: rest)

/-- The cursor quotes the whole line of the place it has come to. -/
theorem Cursor.currentLine_past_start (before rest : List Char) :
    ((Cursor.start (before ++ rest)).past before).currentLine = lastLine before ++ rest.takeWhile (· ≠ '\n') := by
  have hlast : ∀ c ∈ lastLine before, decide (c ≠ '\n') = true := by
    intro c hc
    exact all_eq_true.1 all_takeWhile c (mem_reverse.1 hc)
  rw [Cursor.currentLine, Cursor.lineStart_past_start, takeWhile_append_of_pos hlast]

variable {rest before text : List Char} {escaped : String}

theorem StringEnd.eq_unclosed_of_prepend {ending : StringEnd}
    (h : ending.prepend c before = .unclosed text) :
    ∃ read, ending = .unclosed read ∧ text = before ++ read := by
  cases ending with
  | unclosed read =>
    cases h
    exact ⟨read, rfl, rfl⟩
  | closed | unknownEscape => cases h

theorem StringEnd.eq_unknownEscape_of_prepend {front : List Char} {ending : StringEnd}
    (h : ending.prepend c front = .unknownEscape escaped before text) :
    ∃ inside read, ending = .unknownEscape escaped inside read ∧ before = front ++ inside ∧ text = front ++ read := by
  cases ending with
  | unknownEscape _ inside read =>
    cases h
    exact ⟨inside, read, rfl, rfl, rfl⟩
  | closed | unclosed => cases h

/-- A literal that is not closed is read up to the end of its line. -/
theorem newline_not_mem_of_unclosed (h : scanString rest = .unclosed text) : text <+: rest ∧ '\n' ∉ text := by
  induction rest using scanString.induct generalizing text with
  | case1 | case3 =>
    cases h
    simp
  | case2 | case4 => cases h
  | case5 c rest denoted hdenoted ih =>
    simp only [scanString, hdenoted] at h
    obtain ⟨read, hscan, rfl⟩ := StringEnd.eq_unclosed_of_prepend h
    obtain ⟨hstands, hread⟩ := ih hscan
    have hc : '\n' ≠ c := by
      rintro rfl
      cases hdenoted
    simp [hstands, hread, hc]
  | case6 c rest hunknown =>
    simp only [scanString, hunknown] at h
    cases h
  | case7 c rest hquote hnewline hlast hescape ih =>
    rw [scanString] at h
    · obtain ⟨read, hscan, rfl⟩ := StringEnd.eq_unclosed_of_prepend h
      obtain ⟨hstands, hread⟩ := ih hscan
      simp [hstands, hread, Ne.symm hnewline]
    all_goals assumption

/-- An unknown escape is on the line of its literal. Reading it ends on that line too, unless it is a line feed
    that is escaped. -/
theorem count_newline_of_unknownEscape (h : scanString rest = .unknownEscape escaped before text) :
    before <+: text ∧ text <+: rest ∧ '\n' ∉ before ∧ text.count '\n' = if escaped = "\n" then 1 else 0 := by
  induction rest using scanString.induct generalizing before text with
  | case1 | case2 | case3 => cases h
  | case4 =>
    cases h
    exact ⟨ nil_prefix, prefix_rfl, by simp, by decide⟩
  | case5 c rest denoted hdenoted ih =>
    simp only [scanString, hdenoted] at h
    obtain ⟨inside, read, hscan, rfl, rfl⟩ := StringEnd.eq_unknownEscape_of_prepend h
    obtain ⟨hinside, hstands, hnewline, hcount⟩ := ih hscan
    have hc : '\n' ≠ c := by
      rintro rfl
      cases hdenoted
    exact ⟨by simpa using hinside, by simpa using hstands, by simp [hnewline, hc], by simp [hcount, hc.symm]⟩
  | case6 c rest hunknown =>
    simp only [scanString, hunknown] at h
    cases h
    have hsingleton : String.singleton c = "\n" ↔ c = '\n' := by simp [String.ext_iff]
    refine ⟨ nil_prefix, by simp, by simp, ?_⟩
    by_cases hc : c = '\n' <;> simp [hc, hsingleton]
  | case7 c rest hquote hnewline hlast hescape ih =>
    rw [scanString] at h
    · obtain ⟨inside, read, hscan, rfl, rfl⟩ := StringEnd.eq_unknownEscape_of_prepend h
      obtain ⟨hinside, hstands, hnone, hcount⟩ := ih hscan
      refine ⟨by simpa using hinside, by simpa using hstands, by simp [hnone, Ne.symm hnewline], ?_⟩
      rw [singleton_append, count_cons_of_ne hnewline, hcount]
    all_goals assumption

/-- A fault in a text that is to blame on its first line. Reading has not left that line, unless it has met an
    escaped line feed. -/
structure ScanFault.OnLine (fault : ScanFault) (text : List Char) : Prop where
  reached : fault.before <+: fault.consumed
  stands : fault.consumed <+: text
  sameLine : '\n' ∉ fault.before
  count_consumed : fault.consumed.count '\n' = if fault.reason = .cause (.unknownEscape "\n") then 1 else 0

theorem ScanFault.onLine_of_not_mem {cause : Cause} {consumed : List Char} {quotesLine : Bool}
    (hcause : cause ≠ .unknownEscape "\n") (hstands : consumed <+: text) (hnewline : '\n' ∉ consumed) :
    ScanFault.OnLine ⟨.cause cause, [], consumed, quotesLine⟩ text :=
  ⟨ nil_prefix, hstands, by simp, by simp [hcause, count_eq_zero_of_not_mem hnewline]⟩

theorem newline_not_mem_of_digits (h : ∀ d ∈ digits, d.isDigit = true) : '\n' ∉ digits :=
  fun hmem => Bool.false_ne_true (h _ hmem)

namespace Piece

variable {fault : ScanFault}

theorem onLine_of_ofInteger {more : List Char} (hdigits : ∀ d ∈ digits, d.isDigit = true)
    (h : ofInteger digits = .fault fault) (hquotes : fault.quotesLine = true) : fault.OnLine (digits ++ more) := by
  unfold ofInteger at h
  split at h
  · cases h
    cases hquotes
  · dsimp only at h
    split at h <;> cases h
    exact ScanFault.onLine_of_not_mem (by simp) (prefix_append _ _) (newline_not_mem_of_digits hdigits)

theorem onLine_of_ofNumber {more : List Char} (hdigits : ∀ d ∈ digits, d.isDigit = true)
    (h : ofNumber digits more = .fault fault) (hquotes : fault.quotesLine = true) : fault.OnLine (digits ++ more) := by
  unfold ofNumber at h
  split at h
  · next d rest =>
    split at h
    · next hd =>
      have hfraction : ∀ e ∈ d :: rest.takeWhile Char.isDigit, e.isDigit = true :=
        forall_mem_cons.2 ⟨hd, all_eq_true.1 all_takeWhile⟩
      unfold ofFloat at h
      dsimp only at h
      split at h <;> cases h
      refine ScanFault.onLine_of_not_mem (by simp) ?_ ?_
      · simpa using takeWhile_prefix _
      · intro hmem
        obtain hwhole | hpoint := mem_append.1 hmem
        · exact newline_not_mem_of_digits hdigits hwhole
        · exact newline_not_mem_of_digits hfraction ((mem_cons.1 hpoint).resolve_left (by decide))
    · exact onLine_of_ofInteger hdigits h hquotes
  · exact onLine_of_ofInteger hdigits h hquotes

theorem onLine_of_ofString (h : ofString rest = .fault fault) : fault.OnLine ('"' :: rest) := by
  unfold ofString at h
  split at h <;> cases h
  · next text hscan =>
    obtain ⟨hstands, hnewline⟩ := newline_not_mem_of_unclosed hscan
    exact ScanFault.onLine_of_not_mem (by simp) (by simpa using hstands) (by simpa using hnewline)
  · next escaped before text hscan =>
    obtain ⟨hbefore, hstands, hnewline, hcount⟩ := count_newline_of_unknownEscape hscan
    exact ⟨by simpa using hbefore, by simpa using hstands, by simpa using hnewline, by simpa using hcount⟩

/-- Every fault that quotes a line is found on it, an escaped line feed apart. -/
theorem onLine_of_scan (h : scan c rest = .fault fault) (hquotes : fault.quotesLine = true) :
    fault.OnLine (c :: rest) := by
  unfold scan at h
  split at h
  · cases h
  split at h
  · unfold ofIdentifier at h
    dsimp only at h
    split at h <;> cases h
  split at h
  · next hdigit =>
    have hdigits : ∀ d ∈ c :: rest.takeWhile Char.isDigit, d.isDigit = true :=
      List.forall_mem_cons.2 ⟨hdigit, List.all_eq_true.1 List.all_takeWhile⟩
    have honLine := onLine_of_ofNumber hdigits h hquotes
    rwa [List.cons_append, List.takeWhile_append_dropWhile] at honLine
  split at h
  · exact onLine_of_ofString h
  · cases h
  · split at h <;> cases h
    cases hquotes
  · unfold ofSymbol at h
    split at h
    · cases h
    · split at h <;> cases h
      exact ScanFault.onLine_of_not_mem (by simp) List.nil_prefix (by simp)

end Piece

/-- Reading tokens fails at a place where a fault stands next. -/
theorem exists_fault_of_lexFrom {source before rest : List Char} {budget : Nat} {failure : Failure}
    (hsource : source = before ++ rest)
    (h : (lexFrom file budget ((Cursor.start source).past before)).ending = .error failure) :
    ∃ passed c more fault, source = passed ++ c :: more ∧ Piece.scan c more = .fault fault ∧
      failure = fault.failure file ((Cursor.start source).past passed) := by
  induction budget generalizing before rest with
  | zero => cases h
  | succ budget ih =>
    have hpast (text : List Char) :
        ((Cursor.start source).past before).past text = (Cursor.start source).past (before ++ text) :=
      List.foldl_append.symm
    have hrest : ((Cursor.start source).past before).rest = rest := Cursor.rest_past hsource
    rw [lexFrom, hrest] at h
    cases rest with
    | nil => cases h
    | cons c rest =>
      dsimp only at h
      split at h
      · next text hscan =>
        obtain ⟨more, htext, _, _⟩ := Piece.skipped_of_scan hscan
        rw [hpast] at h
        exact ih (by rw [hsource, htext, List.append_assoc]) h
      · next kind lexeme hscan =>
        obtain ⟨more, htext⟩ := (Piece.munches_of_scan hscan).stands
        rw [hpast] at h
        exact ih (by rw [hsource, ← htext, List.append_assoc]) h
      · next fault hscan =>
        cases h
        exact ⟨before, c, rest, fault, hsource, hscan, rfl⟩

theorem ending_of_tokenize {source : List Char} {failure : Failure}
    (h : tokenize file source = .error failure) : (lex file source).ending = .error failure := by
  unfold tokenize at h
  dsimp only at h
  cases hending : (lex file source).ending with
  | error found =>
    rw [hending] at h
    cases h
    rfl
  | ok finish =>
    rw [hending] at h
    cases h

theorem ScanFault.eq_of_failure {fault : ScanFault} {cursor : Cursor} {d : Diagnostic} {line : String}
    (h : .diagnostic d = fault.failure file cursor) (hline : d.sourceLine = some line) :
    fault.reason = .cause d.cause ∧ fault.quotesLine = true ∧
      d.location = some ((cursor.past fault.before).location file) ∧
      line.toList = (cursor.past fault.consumed).currentLine := by
  unfold ScanFault.failure at h
  split at h
  · cases h
  · next cause hreason =>
    cases h
    split at hline
    · next hquotes =>
      cases hline
      exact ⟨hreason, hquotes, rfl, by simp⟩
    · cases hline

/-- A lexical diagnostic that quotes a line points into the source and quotes the line that it points into. Only an
    escaped line feed is found out when reading has left its line: there the next line is quoted. -/
theorem quotesLine_of_tokenize {file : String} {source : List Char} {d : Diagnostic} {line : String}
    (h : tokenize file source = .error (.diagnostic d)) (hline : d.sourceLine = some line) :
    ∃ (l c : Nat) (pointed : List Char),
      d.location = some ⟨file, l, c⟩ ∧ 1 ≤ l ∧ (source.splitOn '\n')[l - 1]? = some pointed ∧
      1 ≤ c ∧ c ≤ pointed.length + 1 ∧
      (d.cause ≠ .unknownEscape "\n" → line.toList = pointed) ∧
      (d.cause = .unknownEscape "\n" → (source.splitOn '\n')[l]? = some line.toList) := by
  obtain ⟨passed, c, more, fault, rfl, hscan, hfailure⟩ :=
    exists_fault_of_lexFrom (List.nil_append source).symm (ending_of_tokenize h)
  obtain ⟨hreason, hquotes, hlocation, hquoted⟩ := ScanFault.eq_of_failure hfailure hline
  obtain ⟨⟨tail, htail⟩, ⟨rest, hrest⟩, hbefore, hcount⟩ := Piece.onLine_of_scan hscan hquotes
  have hpast (text : List Char) :
      ((Cursor.start (passed ++ c :: more)).past passed).past text =
        (Cursor.start (passed ++ c :: more)).past (passed ++ text) :=
    List.foldl_append.symm
  -- The same text, split where the diagnostic points and where reading has come to.
  have hpointed : passed ++ c :: more = (passed ++ fault.before) ++ (tail ++ rest) := by
    rw [← hrest, ← htail]
    simp
  have hread : passed ++ c :: more = (passed ++ fault.consumed) ++ rest := by
    rw [← hrest, List.append_assoc]
  have hsame : (passed ++ fault.before).count '\n' = passed.count '\n' := by
    rw [List.count_append, List.count_eq_zero_of_not_mem hbefore, Nat.add_zero]
  have hfrom := getElem?_splitOn (passed ++ fault.before) (tail ++ rest)
  have hto := getElem?_splitOn (passed ++ fault.consumed) rest
  rw [hpast, Cursor.location_past_start, Location.after, hsame] at hlocation
  rw [hpast, hread, Cursor.currentLine_past_start] at hquoted
  rw [← hpointed, hsame] at hfrom
  rw [← hquoted, ← hread, List.count_append, hcount, hreason] at hto
  refine ⟨1 + passed.count '\n', 1 + (lastLine (passed ++ fault.before)).length,
    lastLine (passed ++ fault.before) ++ (tail ++ rest).takeWhile (· ≠ '\n'), ?_, by omega, ?_, by omega, ?_, ?_, ?_⟩
  · rw [hlocation, lastLine, List.length_reverse]
  · rw [Nat.add_sub_cancel_left, hfrom]
  · rw [List.length_append]
    omega
  · intro hcause
    rw [if_neg (by simpa using hcause), Nat.add_zero, hfrom] at hto
    exact (Option.some.inj hto).symm
  · intro hcause
    rw [if_pos (by rw [hcause])] at hto
    rw [Nat.add_comm, hto]

/-- A string that is not closed, with its line. -/
theorem quotesLine_of_tokenize_unclosed :
    ∃ d, tokenize "m" "a\n 1 \"b\\n\nc".toList = .error (.diagnostic d) ∧ d.cause = .unterminatedString ∧
      d.sourceLine = some " 1 \"b\\n" ∧ ∃ l c : Nat, d.location = some ⟨"m", l, c⟩ ∧
        ("a\n 1 \"b\\n\nc".toList.splitOn '\n')[l - 1]? = some " 1 \"b\\n".toList ∧ 1 ≤ c ∧ c ≤ 8 := by
  have hread : tokenize "m" "a\n 1 \"b\\n\nc".toList =
      .error (.diagnostic ⟨.unterminatedString, some ⟨"m", 2, 4⟩, some " 1 \"b\\n"⟩) := by
    decide +kernel
  obtain ⟨l, c, pointed, hlocation, _, hpointed, hc, hle, hsame, _⟩ := quotesLine_of_tokenize hread rfl
  have hline := hsame (by decide)
  rw [← hline] at hpointed hle
  exact ⟨_, hread, rfl, rfl, l, c, hlocation, hpointed, hc, hle⟩

/-- A line feed is escaped at the end of the first line: the second line is quoted for it. -/
theorem not_quotesLine_of_escaped_newline :
    ∃ d, tokenize "m" "\"\\\nb".toList = .error (.diagnostic d) ∧ d.location = some ⟨"m", 1, 2⟩ ∧
      d.sourceLine = some "b" ∧ ("\"\\\nb".toList.splitOn '\n')[0]? = some "\"\\".toList ∧ "b" ≠ "\"\\" :=
  ⟨⟨.unknownEscape "\n", some ⟨"m", 1, 2⟩, some "b"⟩, by decide +kernel, rfl, rfl, by decide, by decide⟩

end Smpl
