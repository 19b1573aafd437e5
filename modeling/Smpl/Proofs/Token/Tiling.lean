import Smpl.Proofs.Outcome
import Smpl.Proofs.Token.Lexeme

namespace Smpl

open List

/-- One thing to skip, when `rest` comes after it. A block comment ends at its first closing mark. -/
inductive Skipped : List Char → List Char → Prop
  | blank {c : Char} (rest : List Char) : isBlank c = true → Skipped [c] rest
  | lineComment {body rest : List Char} :
    '\n' ∉ body → Ends (· ≠ '\n') rest → Skipped ('/' :: '/' :: body) rest
  | blockComment {body : List Char} (rest : List Char) :
    ¬ ['*', '/'] <:+: body → Skipped ('/' :: '*' :: body ++ ['*', '/']) rest

/-- Blanks and comments that stand before `rest`. -/
inductive Trivia (rest : List Char) : List Char → Prop
  | nil : Trivia rest []
  | cons {piece text : List Char} : Skipped piece (text ++ rest) → Trivia rest text → Trivia rest (piece ++ text)

/-- The place in a file that comes after a text: lines end with a line feed, and columns count from the
    last one. -/
def Location.after (file : String) (before : List Char) : Location :=
  ⟨file, (1 + before.count '\n' : Nat), (1 + (before.reverse.takeWhile (· ≠ '\n')).length : Nat)⟩

/-- The tokens that tile a text which stands after `before` in a file. -/
inductive Tiles (file : String) : List Char → List Char → List Token → Prop
  | done {before trivia : List Char} : Trivia [] trivia → Tiles file before trivia []
  | token {before trivia lexeme rest : List Char} {kind : TokenKind} {tokens : List Token} :
    Trivia (lexeme ++ rest) trivia → (∀ piece more, lexeme ++ rest = piece ++ more → ¬ Skipped piece more) →
    kind.Munches lexeme (lexeme ++ rest) → Tiles file (before ++ trivia ++ lexeme) rest tokens →
    Tiles file before (trivia ++ (lexeme ++ rest))
      (⟨kind, String.ofList lexeme, .after file (before ++ trivia)⟩ :: tokens)

theorem Tiles.skip {file : String} {before piece rest : List Char} {tokens : List Token}
    (hskipped : Skipped piece rest) (h : Tiles file (before ++ piece) rest tokens) :
    Tiles file before (piece ++ rest) tokens := by
  cases h with
  | done htrivia => exact .done (.cons (by rwa [append_nil]) htrivia)
  | token htrivia hfresh hmunches htiles =>
    rw [← append_assoc, append_assoc before]
    refine .token (.cons hskipped htrivia) hfresh hmunches ?_
    simpa only [append_assoc] using htiles

theorem closeComment_eq_some {rest text : List Char} (h : closeComment rest = some text) :
    ∃ body more, text = body ++ ['*', '/'] ∧ rest = text ++ more ∧ ¬ ['*', '/'] <:+: body := by
  induction rest using closeComment.induct generalizing text with
  | case1 => cases h
  | case2 more =>
    cases h
    exact ⟨[], more, rfl, rfl, by decide⟩
  | case3 c rest hopen ih =>
    rw [closeComment] at h
    · obtain ⟨tail, htail, rfl⟩ := Option.map_eq_some_iff.1 h
      obtain ⟨body, more, rfl, rfl, hbody⟩ := ih htail
      refine ⟨c :: body, more, rfl, rfl, ?_⟩
      rw [infix_cons_iff]
      rintro (hstart | hinside)
      · obtain ⟨rfl, hslash⟩ := cons_prefix_cons.1 hstart
        obtain ⟨after, rfl⟩ := hslash
        exact hopen _ rfl rfl
      · exact hbody hinside
    · exact hopen

namespace Piece

variable {c : Char} {rest text lexeme : List Char} {kind : TokenKind}

/-- What the scanner passes over is blanks or a comment. -/
theorem skipped_of_scan (h : scan c rest = .trivia text) :
    ∃ more, c :: rest = text ++ more ∧ text ≠ [] ∧ Skipped text more := by
  have hscanned := scanned_scan c rest
  rw [h] at hscanned
  generalize hpiece : Piece.trivia text = piece at hscanned
  cases hscanned with
  | blank _ hblank =>
    cases hpiece
    exact ⟨rest, rfl, cons_ne_nil _ _, .blank rest hblank⟩
  | lineComment rest =>
    cases hpiece
    refine ⟨rest.dropWhile (· ≠ '\n'), ?_, cons_ne_nil _ _, .lineComment ?_ (ends_dropWhile _ rest)⟩
    · rw [cons_append, cons_append, takeWhile_append_dropWhile]
    · intro hmem
      have := all_eq_true.1 all_takeWhile _ hmem
      simp at this
  | blockComment hclose =>
    cases hpiece
    obtain ⟨body, more, rfl, rfl, hbody⟩ := closeComment_eq_some hclose
    exact ⟨more, rfl, cons_ne_nil _ _, .blockComment more hbody⟩
  | openComment => cases hpiece
  | word =>
    unfold ofIdentifier at hpiece
    grind
  | number =>
    unfold ofNumber ofInteger ofFloat at hpiece
    grind
  | string =>
    unfold ofString at hpiece
    grind
  | symbol =>
    unfold ofSymbol at hpiece
    grind

/-- Where a token is read there is nothing to skip. -/
theorem not_skipped_of_scan (h : scan c rest = .token kind lexeme) {piece more : List Char}
    (htext : c :: rest = piece ++ more) : ¬ Skipped piece more := by
  intro hskipped
  have hfresh : isBlank c = false ∧ (c = '/' → Ends (fun d => d = '/' || d = '*') rest) := by
    have hscanned := scanned_scan c rest
    rw [h] at hscanned
    generalize hpiece : Piece.token kind lexeme = piece at hscanned
    cases hscanned with
    | blank | lineComment | blockComment | openComment => cases hpiece
    | word _ hstart =>
      refine ⟨not_isBlank_of_isIdentifierStart hstart, ?_⟩
      rintro rfl
      cases hstart
    | number _ hdigit =>
      refine ⟨(not_isIdentifierStart_of_isDigit hdigit).2, ?_⟩
      rintro rfl
      cases hdigit
    | string => exact ⟨rfl, by rintro ⟨⟩⟩
    | symbol hstarts hcomment =>
      simp only [startsSymbol, Bool.and_eq_true, Bool.not_eq_true'] at hstarts
      exact ⟨hstarts.1.1.1, hcomment⟩
  cases hskipped with
  | blank _ hblank =>
    cases htext
    rw [hfresh.1] at hblank
    cases hblank
  | lineComment =>
    cases htext
    exact absurd (hfresh.2 rfl _ _ rfl) (by decide)
  | blockComment =>
    cases htext
    exact absurd (hfresh.2 rfl _ _ rfl) (by decide)

end Piece

/-- The cursor counts lines and columns as the text it has passed does. -/
theorem Cursor.location_past_start (file : String) (source before : List Char) :
    ((Cursor.start source).past before).location file = .after file before := by
  induction before using List.reverseRecOn with
  | nil => rfl
  | append_singleton before c ih =>
    rw [Cursor.past, foldl_append, foldl_cons, foldl_nil]
    change (((Cursor.start source).past before).step c).location file = _
    simp only [Cursor.location, Location.after, Location.mk.injEq, true_and, Int.natCast_inj] at ih ⊢
    unfold Cursor.step
    by_cases hc : c = '\n'
    · simp [hc, ih.1, Nat.add_assoc]
    · simp [hc, ih.1, ih.2]
      omega

/-- A run from a place on gives the tokens that tile what is left, and ends where the text does. -/
theorem tiles_of_lexFrom {file : String} {source : List Char} {budget : Nat} {before rest : List Char}
    (hsource : source = before ++ rest) (hbudget : rest.length ≤ budget) {tokens : List Token} {finish : Location}
    (h : lexFrom file budget ((Cursor.start source).past before) = ⟨tokens, .ok finish⟩) :
    Tiles file before rest tokens ∧ finish = .after file source := by
  induction budget generalizing before rest tokens with
  | zero =>
    cases length_eq_zero_iff.1 (Nat.le_zero.1 hbudget)
    rw [lexFrom, Cursor.location_past_start] at h
    cases h
    exact ⟨.done .nil, by rw [hsource, append_nil]⟩
  | succ budget ih =>
    have hrest : ((Cursor.start source).past before).rest = rest := Cursor.rest_past hsource
    have hpast (text : List Char) :
        ((Cursor.start source).past before).past text = (Cursor.start source).past (before ++ text) :=
      foldl_append.symm
    rw [lexFrom, hrest, Cursor.location_past_start] at h
    cases rest with
    | nil =>
      cases h
      exact ⟨.done .nil, by rw [hsource, append_nil]⟩
    | cons c rest =>
      dsimp only at h
      split at h
      · next text hscan =>
        obtain ⟨more, htext, hne, hskipped⟩ := Piece.skipped_of_scan hscan
        rw [hpast] at h
        rw [htext] at hsource hbudget ⊢
        have hlength : 0 < text.length := length_pos_of_ne_nil hne
        obtain ⟨htiles, hfinish⟩ := ih (by rw [hsource, append_assoc])
          (by rw [length_append] at hbudget; omega) h
        exact ⟨htiles.skip hskipped, hfinish⟩
      · next kind lexeme hscan =>
        have hmunches := Piece.munches_of_scan hscan
        have hfresh := @Piece.not_skipped_of_scan c rest lexeme kind hscan
        obtain ⟨more, htext⟩ := hmunches.stands
        rw [hpast] at h
        rw [← htext] at hsource hbudget hmunches hfresh ⊢
        obtain ⟨_, _, rfl, _⟩ := hmunches.spells.lead
        injection h with htokens hending
        subst htokens
        obtain ⟨htiles, hfinish⟩ := ih (by rw [hsource, append_assoc])
          (by rw [length_append, length_cons] at hbudget; omega) (by rw [← hending])
        refine ⟨?_, hfinish⟩
        have htoken : Tiles file before ([] ++ (_ ++ more)) (⟨kind, _, .after file (before ++ [])⟩ :: _) :=
          .token .nil (fun _ _ => hfresh) hmunches (by rwa [append_nil])
        rwa [append_nil] at htoken
      · cases h

/-- Reading a text to its end gives the tokens that tile it, and the place of its end. -/
theorem tiles_of_tokenize {file : String} {source : List Char} {stream : TokenStream}
    (h : tokenize file source = .ok stream) :
    Tiles file [] source stream.tokens ∧ stream.finish = .after file source := by
  unfold tokenize lex at h
  dsimp only at h
  cases hlexed : lexFrom file source.length (Cursor.start source) with
  | mk tokens ending =>
    rw [hlexed] at h
    cases ending with
    | error failure => cases h
    | ok finish =>
      cases h
      exact tiles_of_lexFrom rfl (Nat.le_refl _) hlexed

/-- Comments, numbers, joined marks and an escape on two lines. -/
theorem tiles_of_tokenize_mixed :
    ∃ stream,
      tokenize "m" "x1 /* **/ = 1.5.f // e\r\n\t<==\"\\\"\"\n".toList = .ok stream ∧
      stream.tokens.map (·.lexeme) = ["x1", "=", "1.5", ".", "f", "<=", "=", "\"\\\"\""] ∧
      Tiles "m" [] "x1 /* **/ = 1.5.f // e\r\n\t<==\"\\\"\"\n".toList stream.tokens ∧
      stream.finish = ⟨"m", 3, 1⟩ := by
  refine exists_ok (p := fun stream => stream.tokens.map (·.lexeme) =
    ["x1", "=", "1.5", ".", "f", "<=", "=", "\"\\\"\""])
    (by decide +kernel) fun stream hstream hlexemes => ?_
  exact ⟨of_decide_eq_true hlexemes, tiles_of_tokenize hstream⟩

end Smpl
