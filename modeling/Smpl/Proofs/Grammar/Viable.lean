import Smpl.Proofs.Grammar.Sequence

namespace Smpl.Grammar

open List

variable {α β : Type}

/-- A token list that the rule reads whole, whatever follows it. -/
def Word (rule : Rule α) (a : α) (word : Tokens) : Prop :=
  ∀ rest, rule a (word ++ rest) rest

/-- A rule that reads some token list. -/
class Productive (rule : Rule α) : Prop where
  exists_word : ∃ a word, Word rule a word

/-- The tokens start a token list that the rule reads whole. -/
def Viable (rule : Rule α) (read : Tokens) : Prop :=
  ∃ a more, Word rule a (read ++ more)

/-- What one rule reads and then what another does, which may depend on it. -/
def Then (first : Rule α) (second : α → Rule β) : Rule β :=
  fun b ts rest => ∃ a t, first a ts t ∧ second a b t rest

/-- What one rule reads as a known result and then what another does. -/
def After (first : Rule α) (a : α) (second : Rule β) : Rule β :=
  fun b ts rest => ∃ t, first a ts t ∧ second b t rest

/-- Nothing is read for a result. -/
inductive Gives (a : α) : Rule α
  | mk {rest : Tokens} : Gives a a rest rest

abbrev Mark (mark : Symbol) : Rule Location := Takes (.symbol mark)

abbrev Key (word : Keyword) : Rule Location := Takes (.keyword word)

/-- A name with its location. -/
def Named : Rule (String × Location) :=
  fun named => Takes (.identifier named.1) named.2

/-- A run over tokens reads what the rule does: all of it if it succeeds, and a start of it before a fault. -/
def Tracks (rule : Rule α) (ts : Tokens) : Reading (α × Tokens) → Prop
  | .ok (a, rest) => ∃ word, ts = word ++ rest ∧ Word rule a word
  | .error fault => ∃ read, ts = read ++ fault.rest ∧ Viable rule read

variable {rule : Rule α} {rule' : α → Rule β} {second : Rule β} {a : α} {ts word read : Tokens}

theorem Word.takes (kind : TokenKind) (lexeme : String) (loc : Location) :
    Word (Takes kind) loc [⟨kind, lexeme, loc⟩] :=
  fun _ => .mk

instance : Productive (Gives a) := ⟨a, [], fun _ => .mk⟩

instance (kind : TokenKind) : Productive (Takes kind) := ⟨_, _, Word.takes kind "" default⟩

instance : Productive Named := ⟨("", default), _, Word.takes (.identifier "") "" default⟩

instance (separator : Symbol) : Productive (Names separator) := ⟨[], [], fun _ => .nil⟩

instance : Productive (Listed rule) := ⟨[], [], fun _ => .none⟩

instance : Productive (TypeList rule) := ⟨[], [], fun _ => .none⟩

instance : Productive (Arrow rule) := ⟨none, [], fun _ => .none⟩

instance : Productive (Many rule) := ⟨[], [], fun _ => .nil⟩

theorem Word.then {b : β} {word' : Tokens} (h : Word rule a word) (h' : Word (rule' a) b word') :
    Word (Then rule rule') b (word ++ word') := by
  intro rest
  refine ⟨a, word' ++ rest, ?_, h' rest⟩
  rw [append_assoc]
  exact h _

instance [h : Productive rule] [h' : ∀ a, Productive (rule' a)] : Productive (Then rule rule') := by
  obtain ⟨a, word, hword⟩ := h
  obtain ⟨b, word', hword'⟩ := h' a
  exact ⟨b, _, hword.then hword'⟩

theorem Productive.of_forall {rule' : Rule α} [h : Productive rule]
    (hrule : ∀ a ts rest, rule a ts rest → rule' a ts rest) : Productive rule' := by
  obtain ⟨a, word, hword⟩ := h
  exact ⟨a, word, fun rest => hrule _ _ _ (hword rest)⟩

theorem Viable.then [h' : ∀ a, Productive (rule' a)] (h : Viable rule read) : Viable (Then rule rule') read := by
  obtain ⟨a, more, hmore⟩ := h
  obtain ⟨b, word', hword'⟩ := h' a
  refine ⟨b, more ++ word', ?_⟩
  rw [← append_assoc]
  exact hmore.then hword'

namespace Tracks

variable {x : Reading (α × Tokens)} {y : Reading (β × Tokens)} {f : α × Tokens → Reading (β × Tokens)}

/-- A run tracks every rule that reads more. -/
theorem mono {rule' : Rule α} (h : Tracks rule ts x) (hrule : ∀ a ts rest, rule a ts rest → rule' a ts rest) :
    Tracks rule' ts x := by
  cases x with
  | error fault =>
    obtain ⟨read, hts, a, more, hmore⟩ := h
    exact ⟨read, hts, a, more, fun rest => hrule _ _ _ (hmore rest)⟩
  | ok result =>
    obtain ⟨word, hts, hword⟩ := h
    exact ⟨word, hts, fun rest => hrule _ _ _ (hword rest)⟩

/-- Tokens in front that another rule reads. -/
theorem after (hword : Word rule a word) (h : Tracks second ts y) : Tracks (After rule a second) (word ++ ts) y := by
  have hafter {b : β} {word' : Tokens} (h' : Word second b word') : Word (After rule a second) b (word ++ word') := by
    intro rest
    refine ⟨word' ++ rest, ?_, h' rest⟩
    rw [append_assoc]
    exact hword _
  cases y with
  | error fault =>
    obtain ⟨read, rfl, b, more, hmore⟩ := h
    refine ⟨word ++ read, (append_assoc ..).symm, b, more, ?_⟩
    rw [append_assoc]
    exact hafter hmore
  | ok result =>
    obtain ⟨word', rfl, hword'⟩ := h
    exact ⟨word ++ word', (append_assoc ..).symm, hafter hword'⟩

theorem take {kind : TokenKind} {lexeme : String} {loc : Location} (h : Tracks second ts y) :
    Tracks (After (Takes kind) loc second) (⟨kind, lexeme, loc⟩ :: ts) y :=
  after (Word.takes kind lexeme loc) h

/-- What was read before a fault of the first run is completed by any word of the second rule. -/
theorem bind_of_ok [∀ a, Productive (rule' a)] (h : Tracks rule ts x)
    (hf : ∀ a rest, x = .ok (a, rest) → Tracks (rule' a) rest (f (a, rest))) :
      Tracks (Then rule rule') ts (x >>= f) := by
  cases x with
  | error fault =>
    obtain ⟨read, hts, hread⟩ := h
    exact ⟨read, hts, hread.then⟩
  | ok result =>
    obtain ⟨a, rest⟩ := result
    obtain ⟨word, rfl, hword⟩ := h
    exact (after hword (hf a rest rfl)).mono fun _ _ _ ⟨t, ha, hb⟩ => ⟨a, t, ha, hb⟩

/-- Two runs in a row track the two rules in a row. -/
theorem bind [∀ a, Productive (rule' a)] (h : Tracks rule ts x) (hf : ∀ a rest, Tracks (rule' a) rest (f (a, rest))) :
    Tracks (Then rule rule') ts (x >>= f) :=
  h.bind_of_ok fun a rest _ => hf a rest

theorem nothing (h : Word rule a []) : Tracks rule ts (.ok (a, ts)) :=
  ⟨[], rfl, h⟩

theorem gives : Tracks (Gives a) ts (.ok (a, ts)) :=
  nothing fun _ => .mk

/-- A run that reads nothing and is refused tracks every rule that can be completed. -/
theorem fault [h : Productive rule] {kind : FaultKind} : Tracks rule ts (.error ⟨kind, ts⟩) :=
  ⟨[], rfl, h.exists_word⟩

end Tracks

/-- What the parser accepts, the rule that it tracks reads. -/
theorem Sound.of_tracks {parse : Tokens → Reading (α × Tokens)} (h : ∀ ts, Tracks rule ts (parse ts)) :
    Sound parse rule := by
  intro a ts rest hparse
  have htracks := h ts
  rw [hparse] at htracks
  obtain ⟨word, rfl, hword⟩ := htracks
  exact hword rest

end Smpl.Grammar
