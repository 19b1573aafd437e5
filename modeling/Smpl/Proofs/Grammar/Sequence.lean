import Smpl.Parse.Module
import Smpl.Proofs.Outcome

namespace Smpl.Grammar

open List

/-- A way to read the start of a token list as something, with the tokens that are left. -/
abbrev Rule (α : Type) := α → Tokens → Tokens → Prop

/-- One token of a kind, read as its location. -/
inductive Takes (kind : TokenKind) : Rule Location
  | mk {lexeme : String} {loc : Location} {rest : Tokens} :
    Takes kind loc (⟨kind, lexeme, loc⟩ :: rest) rest

/-- Any number of names, each after a separator. -/
inductive Names (separator : Symbol) : Rule (List String)
  | nil {rest : Tokens} : Names separator [] rest rest
  | cons {name : String} {names : List String} {loc loc' : Location} {ts t t' rest : Tokens} :
    Takes (.symbol separator) loc ts t → Takes (.identifier name) loc' t t' →
    Names separator names t' rest → Names separator (name :: names) ts rest

/-- A path, with the location where it starts. -/
inductive Route : Rule (Location × Path)
  | mk {first : String} {names : List String} {loc : Location} {ts t rest : Tokens} :
    Takes (.identifier first) loc ts t → Names .colonColon names t rest →
    Route (loc, Path.ofSegments (first :: names)) ts rest

variable {α : Type}

/-- Elements with commas between them, at least one. A comma may follow the last. -/
inductive Elements (element : Rule α) : Rule (List α)
  | last {a : α} {ts rest : Tokens} : element a ts rest → Elements element [a] ts rest
  | lastComma {a : α} {loc : Location} {ts t rest : Tokens} :
    element a ts t → Takes (.symbol .comma) loc t rest → Elements element [a] ts rest
  | more {a : α} {as : List α} {loc : Location} {ts t t' rest : Tokens} :
    element a ts t → Takes (.symbol .comma) loc t t' → Elements element as t' rest →
    Elements element (a :: as) ts rest

/-- Elements with commas between them, or nothing. -/
inductive Listed (element : Rule α) : Rule (List α)
  | none {rest : Tokens} : Listed element [] rest rest
  | some {as : List α} {ts rest : Tokens} : Elements element as ts rest → Listed element as ts rest

/-- A list in parentheses after the word `type`, or nothing. -/
inductive TypeList (element : Rule α) : Rule (List α)
  | none {rest : Tokens} : TypeList element [] rest rest
  | some {as : List α} {loc loc' loc'' : Location} {ts t t' t'' rest : Tokens} :
    Takes (.symbol .leftParen) loc ts t → Takes (.keyword .type) loc' t t' →
    Elements element as t' t'' → Takes (.symbol .rightParen) loc'' t'' rest →
    TypeList element as ts rest

/-- What stands after an arrow, or nothing. -/
inductive Arrow (element : Rule α) : Rule (Option α)
  | none {rest : Tokens} : Arrow element none rest rest
  | some {a : α} {loc : Location} {ts t rest : Tokens} :
    Takes (.symbol .arrow) loc ts t → element a t rest → Arrow element (some a) ts rest

/-- Any number of elements, one after the other. -/
inductive Many (element : Rule α) : Rule (List α)
  | nil {rest : Tokens} : Many element [] rest rest
  | cons {a : α} {as : List α} {ts t rest : Tokens} :
    element a ts t → Many element as t rest → Many element (a :: as) ts rest

section

variable {element rule : Rule α} {as : List α} {ts rest : Tokens}

/-- The rule of a list matters only on the elements that are there. -/
theorem Elements.of_mem (h : Elements element as ts rest)
    (helement : ∀ a ∈ as, ∀ ts rest, element a ts rest → rule a ts rest) : Elements rule as ts rest := by
  induction h with
  | last ha => exact .last (helement _ mem_cons_self _ _ ha)
  | lastComma ha hcomma => exact .lastComma (helement _ mem_cons_self _ _ ha) hcomma
  | more ha hcomma _ ih =>
    obtain ⟨hfirst, hothers⟩ := forall_mem_cons.1 helement
    exact .more (hfirst _ _ ha) hcomma (ih hothers)

theorem Listed.of_mem (h : Listed element as ts rest)
    (helement : ∀ a ∈ as, ∀ ts rest, element a ts rest → rule a ts rest) : Listed rule as ts rest := by
  cases h with
  | none => exact .none
  | some helements => exact .some (helements.of_mem helement)

theorem Many.of_mem (h : Many element as ts rest)
    (helement : ∀ a ∈ as, ∀ ts rest, element a ts rest → rule a ts rest) : Many rule as ts rest := by
  induction h with
  | nil => exact .nil
  | cons ha _ ih =>
    obtain ⟨hfirst, hothers⟩ := forall_mem_cons.1 helement
    exact .cons (hfirst _ _ ha) (ih hothers)

variable [SizeOf α]

/-- What is read for the elements of a list is read for something smaller than the list. -/
theorem Listed.smaller (h : Listed element as ts rest) :
    Listed (fun a ts rest => sizeOf a < sizeOf as ∧ element a ts rest) as ts rest :=
  h.of_mem fun _ ha _ _ h => ⟨sizeOf_lt_of_mem ha, h⟩

theorem TypeList.smaller (h : TypeList element as ts rest) :
    TypeList (fun a ts rest => sizeOf a < sizeOf as ∧ element a ts rest) as ts rest := by
  cases h with
  | none => exact .none
  | some hopen hword helements hclose =>
    exact .some hopen hword (helements.of_mem fun _ ha _ _ h => ⟨sizeOf_lt_of_mem ha, h⟩) hclose

theorem Arrow.smaller {a : Option α} (h : Arrow element a ts rest) :
    Arrow (fun b ts rest => sizeOf b < sizeOf a ∧ element b ts rest) a ts rest := by
  cases h with
  | none => exact .none
  | some harrow ha => exact .some harrow ⟨by simp, ha⟩

end

/-- Whatever the parser accepts, the rule reads. -/
def Sound (parse : Tokens → Reading (α × Tokens)) (rule : Rule α) : Prop :=
  ∀ ⦃a ts rest⦄, parse ts = .ok (a, rest) → rule a ts rest

/-- Where an element of a list up to a closing mark ends: at a comma or at that mark. -/
def EndsElement (closer : Symbol) (rest : Tokens) : Prop :=
  Parse.startsWith .comma rest = true ∨ Parse.startsWith closer rest = true

/-- Whether a list in parentheses after the word `type` stands next. -/
def opensTypeList : Tokens → Bool
  | ⟨.symbol .leftParen, _, _⟩ :: ⟨.keyword .type, _, _⟩ :: _ => true
  | _ => false

theorem Elements.first {element : Rule α} {as : List α} {ts rest : Tokens} (h : Elements element as ts rest) :
    ∃ a t, element a ts t := by
  cases h with
  | last ha => exact ⟨_, _, ha⟩
  | lastComma ha => exact ⟨_, _, ha⟩
  | more ha => exact ⟨_, _, ha⟩

end Smpl.Grammar
