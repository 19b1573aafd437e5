import Smpl.Proofs.Grammar.SourceFile
import Smpl.Proofs.Print.Canonical
import Smpl.Proofs.Print.Spellable
import Smpl.Syntax.Shape

namespace Smpl

open List

variable {rest ts : Tokens}

theorem Path.ofSegments_segments {path : Path} (h : path.isMissing = false) :
    Path.ofSegments path.segments = path := by
  obtain ⟨modules, name, isMissing⟩ := path
  cases h
  simp [Path.ofSegments, Path.segments]

namespace Grammar

/-- Tokens of given kinds, one after the other. -/
inductive Spelled : Rule (List TokenKind)
  | nil {rest : Tokens} : Spelled [] rest rest
  | cons {kind : TokenKind} {kinds : List TokenKind} {loc : Location} {ts t rest : Tokens} :
    Takes kind loc ts t → Spelled kinds t rest → Spelled (kind :: kinds) ts rest

section

variable {kind : TokenKind} {kinds kinds' : List TokenKind} {ts rest : Tokens}

theorem spelled_nil_iff : Spelled [] ts rest ↔ ts = rest := by
  constructor
  · intro h
    cases h
    rfl
  · rintro rfl
    exact .nil

theorem spelled_cons_iff : Spelled (kind :: kinds) ts rest ↔ ∃ loc t, Takes kind loc ts t ∧ Spelled kinds t rest := by
  constructor
  · intro h
    cases h with
    | cons htakes hothers => exact ⟨_, _, htakes, hothers⟩
  · rintro ⟨loc, t, htakes, hothers⟩
    exact .cons htakes hothers

theorem spelled_append_iff : Spelled (kinds ++ kinds') ts rest ↔ ∃ t, Spelled kinds ts t ∧ Spelled kinds' t rest := by
  induction kinds generalizing ts with
  | nil => simp [spelled_nil_iff]
  | cons kind kinds ih =>
    simp only [cons_append, spelled_cons_iff, ih]
    constructor
    · rintro ⟨loc, t, htakes, t', hkinds, hkinds'⟩
      exact ⟨t', ⟨loc, t, htakes, hkinds⟩, hkinds'⟩
    · rintro ⟨t', ⟨loc, t, htakes, hkinds⟩, hkinds'⟩
      exact ⟨loc, t, htakes, t', hkinds, hkinds'⟩

theorem spelled_enclosed_iff : Spelled (enclosed kinds) ts rest ↔
    ∃ loc t, Takes (.symbol .leftParen) loc ts t ∧ ∃ t', Spelled kinds t t' ∧
      ∃ loc', Takes (.symbol .rightParen) loc' t' rest := by
  simp only [enclosed, cons_append, spelled_append_iff, spelled_cons_iff, spelled_nil_iff, exists_eq_right]

theorem spelled_tokens (tokens : Tokens) : Spelled (tokens.map Token.kind) tokens [] := by
  induction tokens with
  | nil => exact .nil
  | cons token tokens ih => exact .cons .mk ih

/-- Names with marks between them are derived from their tokens. -/
theorem names_of_spelled {separator : Symbol} {first : String} {others : List String}
    (h : Spelled (chainKinds separator (first :: others)) ts rest) :
    ∃ loc t, Takes (.identifier first) loc ts t ∧ Names separator others t rest := by
  induction others generalizing first ts with
  | nil =>
    simp only [chainKinds, map_cons, map_nil, intercalate_singleton, spelled_cons_iff,
      spelled_nil_iff] at h
    obtain ⟨loc, t, htakes, rfl⟩ := h
    exact ⟨loc, t, htakes, .nil⟩
  | cons next others ih =>
    simp only [chainKinds, map_cons, intercalate_cons_cons, cons_append, nil_append,
      spelled_cons_iff] at h
    obtain ⟨loc, t, hfirst, loc', t', hseparator, hothers⟩ := h
    obtain ⟨loc'', t'', hnext, hnames⟩ := ih hothers
    exact ⟨loc, t, hfirst, .cons hseparator hnext hnames⟩

theorem route_of_spelled {path : Path} (hpath : path.isSpellable = true) (h : Spelled path.kinds ts rest) :
    ∃ loc, Route (loc, path) ts rest := by
  simp only [Path.isSpellable, Bool.and_eq_true, Bool.not_eq_true'] at hpath
  obtain ⟨first, others, hsegments⟩ : ∃ first others, path.segments = first :: others :=
    exists_cons_of_ne_nil (by simp [Path.segments])
  rw [Path.kinds, hsegments] at h
  obtain ⟨loc, t, hfirst, hnames⟩ := names_of_spelled h
  have hroute := Route.mk hfirst hnames
  rw [← hsegments, Path.ofSegments_segments hpath.1] at hroute
  exact ⟨loc, hroute⟩

end

section

variable {α : Type} {element : Rule α} {R : α → α → Prop} {kinds : α → List TokenKind} {as : List α}
  (h : ∀ a ∈ as, ∀ ⦃ts rest⦄, Spelled (kinds a) ts rest → ∃ a', element a' ts rest ∧ R a a')
include h

theorem elements_of_spelled (hne : as ≠ [])
    (hspelled : Spelled (commaKinds (as.map kinds)) ts rest) :
    ∃ as', Elements element as' ts rest ∧ Forall₂ R as as' := by
  induction as generalizing ts with
  | nil => exact absurd rfl hne
  | cons a as ih =>
    cases as with
    | nil =>
      simp only [commaKinds, map_cons, map_nil, intercalate_singleton] at hspelled
      obtain ⟨a', ha', hrel⟩ := h a mem_cons_self hspelled
      exact ⟨[a'], .last ha', .cons hrel .nil⟩
    | cons next as =>
      simp only [commaKinds, map_cons, intercalate_cons_cons, append_assoc, singleton_append,
        spelled_append_iff, spelled_cons_iff] at hspelled
      obtain ⟨t, hfirst, loc, t', hcomma, hothers⟩ := hspelled
      obtain ⟨a', ha', hrel⟩ := h a mem_cons_self hfirst
      obtain ⟨as', has', hrels⟩ := ih (fun b hb => h b (mem_cons_of_mem a hb)) (cons_ne_nil _ _) hothers
      exact ⟨a' :: as', .more ha' hcomma has', .cons hrel hrels⟩

/-- A list is derived from its tokens, if its elements are. -/
theorem listed_of_spelled (hspelled : Spelled (commaKinds (as.map kinds)) ts rest) :
    ∃ as', Listed element as' ts rest ∧ Forall₂ R as as' := by
  by_cases hne : as = []
  · subst hne
    rw [spelled_nil_iff.1 hspelled]
    exact ⟨[], .none, .nil⟩
  · obtain ⟨as', has', hrels⟩ := elements_of_spelled h hne hspelled
    exact ⟨as', .some has', hrels⟩

theorem typeList_of_spelled (hspelled : Spelled (typeListKinds (as.map kinds)) ts rest) :
    ∃ as', TypeList element as' ts rest ∧ Forall₂ R as as' := by
  by_cases hne : as = []
  · subst hne
    rw [spelled_nil_iff.1 hspelled]
    exact ⟨[], .none, .nil⟩
  · have hempty : (as.map kinds).isEmpty = false := by simpa using hne
    simp only [typeListKinds, hempty, Bool.false_eq_true, if_false, cons_append, spelled_cons_iff,
      spelled_append_iff, spelled_nil_iff] at hspelled
    obtain ⟨_, _, hopen, _, _, hword, _, hlist, _, _, hclose, rfl⟩ := hspelled
    obtain ⟨as', has', hrels⟩ := elements_of_spelled h hne hlist
    exact ⟨as', .some hopen hword has' hclose, hrels⟩

end

end Grammar

end Smpl
