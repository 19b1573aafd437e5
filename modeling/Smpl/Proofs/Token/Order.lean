import Mathlib.Data.Prod.Lex
import Smpl.Proofs.Token.Line

namespace Smpl

open List

namespace Location

/-- Where a place comes in reading order: by line, and on one line by column. -/
def place (loc : Location) : Int ×ₗ Int :=
  toLex (loc.line, loc.column)

theorem place_lt_iff {loc loc' : Location} :
    loc.place < loc'.place ↔ loc.line < loc'.line ∨ loc.line = loc'.line ∧ loc.column < loc'.column :=
  Prod.Lex.toLex_lt_toLex

theorem place_lt_right (loc : Location) {columns : Int} (h : 0 < columns) : loc.place < (loc.right columns).place := by
  rw [place_lt_iff]
  exact .inr ⟨rfl, Int.lt_add_of_pos_right loc.column h⟩

theorem right_right (loc : Location) (columns columns' : Int) :
    (loc.right columns).right columns' = loc.right (columns + columns') := by
  simp only [right, Int.add_assoc]

theorem after_append_singleton (file : String) (before : List Char) {c : Char} (h : c ≠ '\n') :
    after file (before ++ [c]) = (after file before).right 1 := by
  simp only [after, right, count_append, reverse_append, reverse_singleton, singleton_append,
    takeWhile_cons, count_singleton, mk.injEq, true_and]
  simp [h]
  omega

theorem after_append_of_not_mem (file : String) (before : List Char) {text : List Char} (h : '\n' ∉ text) :
    after file (before ++ text) = (after file before).right text.length := by
  induction text using List.reverseRecOn with
  | nil => simp [right]
  | append_singleton text c ih =>
    rw [mem_append, mem_singleton, not_or] at h
    rw [← append_assoc, after_append_singleton file _ (Ne.symm h.2), ih h.1, right_right, length_append]
    rfl

theorem place_after_lt_append_singleton (file : String) (before : List Char) (c : Char) :
    (after file before).place < (after file (before ++ [c])).place := by
  by_cases hc : c = '\n'
  · rw [place_lt_iff]
    left
    simp [after, hc]
  · rw [after_append_singleton file before hc]
    exact place_lt_right _ Int.one_pos

theorem place_after_le_append (file : String) (before text : List Char) :
    (after file before).place ≤ (after file (before ++ text)).place := by
  induction text using List.reverseRecOn with
  | nil => rw [append_nil]
  | append_singleton text c ih =>
    rw [← append_assoc]
    exact ih.trans (place_after_lt_append_singleton file _ c).le

end Location

variable {text before rest : List Char} {file : String} {tokens : List Token} {start : Location}

theorem Quoted.newline_not_mem {value : List Char} (h : Quoted value text) : '\n' ∉ text := by
  induction h with
  | nil => exact not_mem_nil
  | plain _ _ hc _ ih => simp [ih, Ne.symm hc]
  | escape hescape _ ih =>
    simp only [mem_cons, not_or]
    refine ⟨by decide, ?_, ih⟩
    rintro rfl
    cases hescape

/-- No token reaches over the end of a line. -/
theorem TokenKind.Lexeme.newline_not_mem {kind : TokenKind} (h : kind.Lexeme text) : '\n' ∉ text := by
  cases h with
  | identifier hstart hmore =>
    intro hmem
    cases hmem with
    | head => cases hstart
    | tail _ hmem => cases hmore _ hmem
  | keyword word => cases word <;> decide
  | integer _ hdigits => exact newline_not_mem_of_digits hdigits
  | float _ _ hwhole hfraction =>
    simp only [mem_append, mem_cons, not_or]
    exact ⟨newline_not_mem_of_digits hwhole, by decide, newline_not_mem_of_digits hfraction⟩
  | string hquoted =>
    simp only [cons_append, mem_cons, mem_append, not_mem_nil, not_or]
    exact ⟨by decide, hquoted.newline_not_mem, by decide, not_false⟩
  | symbol mark => cases mark <;> decide

/-- The place right after a token. -/
def Token.finish (token : Token) : Location :=
  token.location.right token.lexeme.length

/-- The tokens stand one after the other between two places. -/
def InOrder (start finish : Location) : List Token → Prop
  | [] => start.place ≤ finish.place
  | token :: tokens => start.place ≤ token.location.place ∧ token.location.place < token.finish.place ∧
      InOrder token.finish finish tokens

/-- Tokens that tile a text stand in its order. -/
theorem inOrder_of_tiles (h : Tiles file before rest tokens) :
    InOrder (.after file before) (.after file (before ++ rest)) tokens := by
  induction h with
  | done => exact Location.place_after_le_append ..
  | @token before trivia lexeme rest kind tokens _ _ hmunches _ ih =>
    have hfinish : Token.finish ⟨kind, String.ofList lexeme, .after file (before ++ trivia)⟩ =
        .after file (before ++ trivia ++ lexeme) := by
      rw [Location.after_append_of_not_mem file _ hmunches.spells.newline_not_mem, Token.finish, String.length_ofList]
    refine ⟨Location.place_after_le_append .., ?_, ?_⟩
    · obtain ⟨c, more, rfl, _⟩ := hmunches.spells.lead
      rw [Token.finish, String.length_ofList]
      apply Location.place_lt_right
      rw [length_cons]
      omega
    · rw [hfinish, ← append_assoc before, ← append_assoc (before ++ trivia)]
      exact ih

theorem InOrder.le {finish : Location} (h : InOrder start finish tokens) :
    ∀ loc ∈ tokens.map (·.location) ++ [finish], start.place ≤ loc.place := by
  induction tokens generalizing start with
  | nil =>
    rintro loc (_ | ⟨_, _ | ⟨_, hmem⟩⟩)
    exact h
  | cons token tokens ih =>
    obtain ⟨hstart, hfinish, hothers⟩ := h
    intro loc hmem
    cases hmem with
    | head => exact hstart
    | tail _ hmem => exact hstart.trans (hfinish.le.trans (ih hothers loc hmem))

theorem InOrder.pairwise {finish : Location} (h : InOrder start finish tokens) :
    (tokens.map (·.location) ++ [finish]).Pairwise (·.place < ·.place) := by
  induction tokens generalizing start with
  | nil => exact pairwise_singleton _ _
  | cons token tokens ih =>
    obtain ⟨_, hfinish, hothers⟩ := h
    exact pairwise_cons.2 ⟨fun loc hmem => hfinish.trans_le (hothers.le loc hmem), ih hothers⟩

theorem InOrder.apart {finish : Location} (h : InOrder start finish tokens) :
    tokens.Pairwise (·.finish.place ≤ ·.location.place) := by
  induction tokens generalizing start with
  | nil => exact .nil
  | cons token tokens ih =>
    obtain ⟨_, _, hothers⟩ := h
    refine pairwise_cons.2 ⟨fun other hmem => ?_, ih hothers⟩
    exact hothers.le _ (mem_append_left _ (mem_map_of_mem hmem))

theorem lexeme_of_tiles (h : Tiles file before rest tokens) :
    ∀ token ∈ tokens, token.kind.Lexeme token.lexeme.toList := by
  induction h with
  | done => exact forall_mem_nil _
  | token _ _ hmunches _ ih =>
    refine forall_mem_cons.2 ⟨?_, ih⟩
    rw [String.toList_ofList]
    exact hmunches.spells

/-- The tokens of a text stand in order, and each has the text that tokens of its kind have. -/
theorem inOrder_of_tokenize {source : List Char} {stream : TokenStream} (h : tokenize file source = .ok stream) :
    InOrder (.after file []) stream.finish stream.tokens ∧
      ∀ token ∈ stream.tokens, token.kind.Lexeme token.lexeme.toList := by
  obtain ⟨hending, htokens⟩ := tokenize_eq_ok_iff.1 h
  have hlexed : lexFrom file source.length ((Cursor.start source).past []) = ⟨stream.tokens, .ok stream.finish⟩ := by
    rw [← hending, ← htokens]
    rfl
  obtain ⟨htiles, hfinish⟩ := tiles_of_lexFrom (nil_append source).symm (Nat.le_refl _) hlexed
  rw [hfinish]
  exact ⟨inOrder_of_tiles htiles, lexeme_of_tiles htiles⟩

namespace TokenStream

/-- The places of the tokens, and that of the end of the file as the last. -/
def locations (stream : TokenStream) : List Location :=
  stream.tokens.map (·.location) ++ [stream.finish]

/-- A diagnostic is about the token with that index, and no other. -/
def PointsAt (stream : TokenStream) (diagnostic : Diagnostic) (index : Nat) : Prop :=
  ∀ i, stream.locations[i]? = diagnostic.location ↔ i = index

/-- A fault is about the first token that was not read. -/
theorem pointsAt_of_tokenize {source : List Char} {stream : TokenStream} {read : List Token} {fault : ParseFault}
    (h : tokenize file source = .ok stream) (hfault : stream.tokens = read ++ fault.rest) (lines : List String) :
    stream.PointsAt (fault.diagnostic stream.finish lines) read.length := by
  have hpointed : stream.locations[read.length]? = (fault.diagnostic stream.finish lines).location := by
    rw [locations, hfault, map_append, append_assoc, getElem?_append_right (by rw [length_map]),
      length_map, Nat.sub_self, ParseFault.diagnostic]
    cases fault.rest <;> rfl
  have hnodup : stream.locations.Nodup :=
    (inOrder_of_tokenize h).1.pairwise.imp fun {loc loc'} hlt heq => (heq ▸ hlt).false
  have hlength : read.length < stream.locations.length := by
    rw [locations, hfault, length_append, length_map, length_append, length_singleton]
    omega
  intro i
  rw [← hpointed, eq_comm, getElem?_inj hlength hnodup, eq_comm]

end TokenStream

end Smpl
