import Smpl.Proofs.Traverse
import Smpl.Proofs.Typing.Rules

namespace Smpl

open List

namespace Table

variable {α β : Type} {key key' : String} {value : α} {entries : List (String × α)} {table : Table α} {as : List α}
  {entry : String × α} {ε : Type} {out : Table β} {f : α → Except ε β}

theorem lookup_putIn :
    (putIn key value entries).lookup key' = if key' = key then some value else entries.lookup key' := by
  induction entries with
  | nil => rw [putIn, lookup_cons]
  | cons entry entries ih =>
    obtain ⟨other, old⟩ := entry
    rw [putIn, lookup_cons]
    by_cases hother : other = key
    · subst hother
      rw [if_pos rfl, lookup_cons]
      by_cases hkey : key' = other
      · rw [if_pos hkey, if_pos hkey]
      · rw [if_neg hkey, if_neg hkey, if_neg hkey]
    · rw [if_neg hother, lookup_cons, ih]
      by_cases hkey : key' = other
      · subst hkey
        rw [if_pos rfl, if_neg hother, if_pos rfl]
      · rw [if_neg hkey, if_neg hkey]

/-- Storing an entry changes what is found under its key only. -/
theorem find?_put : (table.put key value).find? key' = if key' = key then some value else table.find? key' :=
  lookup_putIn

/-- What is found after putting values under their keys, provided that no two have the same key. -/
theorem find?_foldl_put {key : α → String} {k : String} {v : α} (hunique : ∀ a ∈ as, ∀ b ∈ as, key a = key b → a = b) :
    (as.foldl (fun table a => table.put (key a) a) table).find? k = some v ↔
      (v ∈ as ∧ key v = k) ∨ (∀ a ∈ as, key a ≠ k) ∧ table.find? k = some v := by
  induction as generalizing table with
  | nil => simp
  | cons a as ih =>
    rw [foldl_cons, ih fun b hb c hc => hunique b (mem_cons_of_mem a hb) c (mem_cons_of_mem a hc),
      find?_put, forall_mem_cons, mem_cons]
    by_cases hkey : k = key a
    · subst hkey
      rw [if_pos rfl, Option.some.injEq]
      constructor
      · rintro (⟨hv, hkey⟩ | ⟨_, rfl⟩)
        · exact .inl ⟨.inr hv, hkey⟩
        · exact .inl ⟨.inl rfl, rfl⟩
      · rintro (⟨rfl | hv, hkey⟩ | ⟨⟨hne, _⟩, _⟩)
        · by_cases hmore : v ∈ as
          · exact .inl ⟨hmore, rfl⟩
          · refine .inr ⟨fun b hb heq => hmore ?_, rfl⟩
            rwa [← hunique b (mem_cons_of_mem v hb) v mem_cons_self heq]
        · exact .inl ⟨hv, hkey⟩
        · exact absurd rfl hne
    · rw [if_neg hkey]
      constructor
      · rintro (⟨hv, hkey'⟩ | ⟨hne, hfind⟩)
        · exact .inl ⟨.inr hv, hkey'⟩
        · exact .inr ⟨⟨Ne.symm hkey, hne⟩, hfind⟩
      · rintro (⟨rfl | hv, hkey'⟩ | ⟨⟨_, hne⟩, hfind⟩)
        · exact absurd hkey'.symm hkey
        · exact .inl ⟨hv, hkey'⟩
        · exact .inr ⟨hne, hfind⟩

theorem mem_putIn (h : entry ∈ putIn key value entries) : entry = (key, value) ∨ entry ∈ entries := by
  induction entries with
  | nil => exact .inl (mem_singleton.1 h)
  | cons first entries ih =>
    rw [putIn] at h
    split at h
    · next hkey =>
      rcases mem_cons.1 h with hfirst | hlater
      · exact .inl (hkey ▸ hfirst)
      · exact .inr (mem_cons_of_mem first hlater)
    · rcases mem_cons.1 h with rfl | hlater
      · exact .inr mem_cons_self
      · exact (ih hlater).imp_right (mem_cons_of_mem first)

theorem mem_foldl_put {key : α → String} (h : entry ∈ (as.foldl (fun table a => table.put (key a) a) table).entries) :
    entry.2 ∈ as ∨ entry ∈ table.entries := by
  induction as generalizing table with
  | nil => exact .inr h
  | cons a as ih =>
    rcases ih h with hlater | hentry
    · exact .inl (mem_cons_of_mem a hlater)
    · rcases mem_putIn hentry with rfl | hold
      · exact .inl mem_cons_self
      · exact .inr hold

theorem mem_of_find? (h : table.find? key = some value) : (key, value) ∈ table.entries :=
  mem_of_lookup h

theorem mapM_eq_ok_iff :
    table.mapM f = .ok out ↔
      Forall₂ (fun entry entry' => entry.1 = entry'.1 ∧ f entry.2 = .ok entry'.2) table.entries out.entries := by
  have hstep : ∀ (entry : String × α) (entry' : String × β),
      (∃ value, f entry.2 = .ok value ∧ (entry.1, value) = entry') ↔ entry.1 = entry'.1 ∧ f entry.2 = .ok entry'.2 := by
    rintro ⟨key, value⟩ ⟨key', value'⟩
    constructor
    · rintro ⟨_, hvalue, hpair⟩
      cases hpair
      exact ⟨rfl, hvalue⟩
    · rintro ⟨rfl, hvalue⟩
      exact ⟨value', hvalue, rfl⟩
  obtain ⟨entries⟩ := out
  simp only [Table.mapM, bind_eq_ok_iff, pure_eq_ok_iff, Smpl.mapM_eq_ok_iff, hstep, Table.mk.injEq,
    exists_eq_right]

/-- The values of a table can be replaced exactly if each of them can. -/
theorem exists_mapM_iff :
    (∃ out, table.mapM f = .ok out) ↔ ∀ entry ∈ table.entries, ∃ b, f entry.2 = .ok b := by
  constructor
  · rintro ⟨out, hout⟩ entry hentry
    obtain ⟨entry', _, _, hvalue⟩ := exists_of_forall₂_of_mem (mapM_eq_ok_iff.1 hout) hentry
    exact ⟨entry'.2, hvalue⟩
  · intro h
    have hstep : ∀ entry ∈ table.entries, ∃ entry' : String × β, entry.1 = entry'.1 ∧ f entry.2 = .ok entry'.2 := by
      intro entry hentry
      obtain ⟨b, hb⟩ := h entry hentry
      exact ⟨(entry.1, b), rfl, hb⟩
    obtain ⟨entries, hentries⟩ := exists_forall₂ hstep
    exact ⟨⟨entries⟩, mapM_eq_ok_iff.2 hentries⟩

/-- Replacing every value of a table is replacing what is found. -/
theorem find?_of_mapM (h : table.mapM f = .ok out) {value : β} :
    out.find? key = some value ↔ ∃ old, table.find? key = some old ∧ f old = .ok value := by
  obtain ⟨entries⟩ := table
  obtain ⟨entries'⟩ := out
  rw [mapM_eq_ok_iff] at h
  unfold Table.find?
  dsimp only at h ⊢
  induction h with
  | nil => simp
  | @cons entry entry' _ _ hentry _ ih =>
    obtain ⟨other, old⟩ := entry
    obtain ⟨other', new⟩ := entry'
    obtain ⟨rfl, hold⟩ := hentry
    rw [lookup_cons, lookup_cons]
    split
    · simp [hold, eq_comm]
    · exact ih

theorem get_eq_ok_iff {name : ItemName} : table.get name = .ok value ↔ table.find? name.text = some value := by
  unfold Table.get Table.require
  split
  · next found hfound => simp [hfound]
  · next hnone => simp [hnone]

end Table

/-- Names without a colon can be told from their joined text. -/
theorem eq_of_append_colons {as bs cs ds : List Char} (has : ':' ∉ as) (hbs : ':' ∉ bs)
    (h : as ++ ':' :: ':' :: bs = cs ++ ':' :: ':' :: ds) : as = cs ∧ bs = ds := by
  induction as generalizing cs with
  | nil =>
    match cs with
    | [] => simpa using h
    | [c] =>
      simp only [nil_append, singleton_append, List.cons.injEq, true_and] at h
      exact absurd (h.2 ▸ mem_cons_self) hbs
    | c :: d :: cs =>
      simp only [nil_append, cons_append, List.cons.injEq] at h
      exact absurd (h.2.2 ▸ mem_append_right cs mem_cons_self) hbs
  | cons a as ih =>
    rw [mem_cons, not_or] at has
    cases cs with
    | nil =>
      simp only [cons_append, nil_append, List.cons.injEq] at h
      exact absurd h.1.symm has.1
    | cons c cs =>
      simp only [cons_append, List.cons.injEq] at h
      obtain ⟨rfl, hrest⟩ := h
      obtain ⟨heq, hds⟩ := ih has.2 hrest
      exact ⟨by rw [heq], hds⟩

/-- A name whose parts hold no colon. -/
structure ItemName.IsPlain (name : ItemName) : Prop where
  moduleName : ':' ∉ name.moduleName.toList
  name : ':' ∉ name.name.toList

/-- The text of a plain name is the text of no other name. -/
theorem ItemName.IsPlain.eq_of_text_eq {name name' : ItemName} (h : name.IsPlain) (htext : name.text = name'.text) :
    name = name' := by
  obtain ⟨moduleName, name⟩ := name
  obtain ⟨moduleName', name'⟩ := name'
  have hlist := congrArg String.toList htext
  simp only [ItemName.text, String.toList_append, append_assoc] at hlist
  obtain ⟨hmodule, hname⟩ := eq_of_append_colons h.moduleName h.name hlist
  obtain rfl : moduleName = moduleName' := String.toList_inj.1 hmodule
  obtain rfl : name = name' := String.toList_inj.1 hname
  rfl

/-- Values under their full names. -/
def Table.byName {α : Type} (name : α → ItemName) (as : List α) : Table α :=
  as.foldl (fun table a => table.put (name a).text a) .empty

namespace Table

variable {α β : Type} {R : α → β → Prop} {table : Table α} {table' : Table β} {value : α} {name : α → ItemName}
  {key : String} {as : List α}

/-- If the texts of their names differ, each value is found under the text of its own name and no other. -/
theorem find?_byName_iff (htexts : ∀ a ∈ as, ∀ b ∈ as, (name a).text = (name b).text → a = b) {a : α} :
    (byName name as).find? key = some a ↔ a ∈ as ∧ (name a).text = key := by
  rw [byName, find?_foldl_put htexts]
  constructor
  · rintro (hfound | ⟨_, hempty⟩)
    · exact hfound
    · cases hempty
  · exact .inl

/-- Values with plain names of their own are found by these names. -/
theorem get_byName_iff (hplain : ∀ a ∈ as, (name a).IsPlain)
    (hunique : ∀ a ∈ as, ∀ b ∈ as, name a = name b → a = b) {n : ItemName} {a : α} :
    (byName name as).get n = .ok a ↔ name a = n ∧ a ∈ as := by
  rw [get_eq_ok_iff, find?_byName_iff fun a ha b hb htext =>
    hunique a ha b hb ((hplain a ha).eq_of_text_eq htext)]
  constructor
  · rintro ⟨ha, htext⟩
    exact ⟨(hplain a ha).eq_of_text_eq htext, ha⟩
  · rintro ⟨rfl, ha⟩
    exact ⟨ha, rfl⟩

theorem exists_mapM_byName_iff {ε : Type} {f : α → Except ε β} (hplain : ∀ a ∈ as, (name a).IsPlain)
    (hunique : ∀ a ∈ as, ∀ b ∈ as, name a = name b → a = b) :
    (∃ out, (byName name as).mapM f = .ok out) ↔ ∀ a ∈ as, ∃ b, f a = .ok b := by
  rw [exists_mapM_iff]
  constructor
  · intro h a ha
    have hfind := get_eq_ok_iff.1 ((get_byName_iff hplain hunique).2 ⟨rfl, ha⟩)
    exact h _ (mem_of_find? hfind)
  · intro h entry hentry
    rcases mem_foldl_put hentry with hmem | hempty
    · exact h entry.2 hmem
    · cases hempty

/-- Tables with the same keys in the same order and related values. -/
def Forall₂ (R : α → β → Prop) (table : Table α) (table' : Table β) : Prop :=
  List.Forall₂ (fun entry entry' => entry.1 = entry'.1 ∧ R entry.2 entry'.2) table.entries table'.entries

theorem Forall₂.put (h : table.Forall₂ R table') (key : String) {value' : β} (hvalue : R value value') :
    (table.put key value).Forall₂ R (table'.put key value') := by
  obtain ⟨entries⟩ := table
  obtain ⟨entries'⟩ := table'
  unfold Table.Forall₂ Table.put at *
  dsimp only at h ⊢
  induction h with
  | nil => exact .cons ⟨rfl, hvalue⟩ .nil
  | @cons entry entry' entries entries' hentry hentries ih =>
    obtain ⟨other, old⟩ := entry
    obtain ⟨other', old'⟩ := entry'
    obtain ⟨rfl, hold⟩ := hentry
    rw [putIn, putIn]
    split
    · exact .cons ⟨rfl, hvalue⟩ hentries
    · exact .cons ⟨rfl, hold⟩ ih

theorem Forall₂.byName {name' : β → ItemName} {bs : List β} (hnames : ∀ a b, R a b → name a = name' b)
    (h : List.Forall₂ R as bs) : (Table.byName name as).Forall₂ R (Table.byName name' bs) := by
  have hstep : ∀ {table : Table α} {table' : Table β}, table.Forall₂ R table' →
      (as.foldl (fun table a => table.put (name a).text a) table).Forall₂ R
        (bs.foldl (fun table b => table.put (name' b).text b) table') := by
    induction h with
    | nil => exact id
    | cons hfirst _ ih =>
      intro table table' htable
      rw [foldl_cons, foldl_cons, hnames _ _ hfirst]
      exact ih (htable.put _ hfirst)
  exact hstep .nil

theorem Forall₂.find? (h : table.Forall₂ R table') (hfind : table.find? key = some value) :
    ∃ value', table'.find? key = some value' ∧ R value value' := by
  obtain ⟨entries⟩ := table
  obtain ⟨entries'⟩ := table'
  unfold Table.Forall₂ Table.find? at *
  dsimp only at h hfind ⊢
  induction h with
  | nil => cases hfind
  | @cons entry entry' entries entries' hentry hentries ih =>
    obtain ⟨other, old⟩ := entry
    obtain ⟨other', old'⟩ := entry'
    obtain ⟨rfl, hold⟩ := hentry
    rw [lookup_cons] at hfind ⊢
    split at hfind
    · next hkey =>
      cases hfind
      exact ⟨old', if_pos hkey, hold⟩
    · next hkey =>
      obtain ⟨value', hvalue', hrel⟩ := ih hfind
      exact ⟨value', by rw [if_neg hkey, hvalue'], hrel⟩

theorem nodup_keys_putIn {entries : List (String × α)} (h : (entries.map (·.1)).Nodup) :
    ((putIn key value entries).map (·.1)).Nodup := by
  induction entries with
  | nil => exact pairwise_singleton _ key
  | cons entry entries ih =>
    obtain ⟨other, old⟩ := entry
    obtain ⟨hother, hothers⟩ := nodup_cons.1 h
    rw [putIn]
    split
    · exact nodup_cons.2 ⟨hother, hothers⟩
    · next hne =>
      refine nodup_cons.2 ⟨fun hmem => ?_, ih hothers⟩
      obtain ⟨found, hfound, hkey⟩ := mem_map.1 hmem
      rcases mem_putIn hfound with rfl | hold
      · exact hne hkey.symm
      · exact hother (mem_map.2 ⟨found, hold, hkey⟩)

/-- Every value stands under the text of its name, and every text once. -/
structure Keyed (name : α → ItemName) (table : Table α) : Prop where
  keys : table.keys.Nodup
  texts : ∀ entry ∈ table.entries, (name entry.2).text = entry.1

theorem Keyed.put (h : table.Keyed name) (value : α) : (table.put (name value).text value).Keyed name where
  keys := nodup_keys_putIn h.keys
  texts := by
    intro entry hentry
    rcases mem_putIn hentry with rfl | hold
    · rfl
    · exact h.texts entry hold

theorem Keyed.byName (name : α → ItemName) (as : List α) : (Table.byName name as).Keyed name := by
  have hstep : ∀ {table : Table α}, table.Keyed name →
      (as.foldl (fun table a => table.put (name a).text a) table).Keyed name := by
    induction as with
    | nil => exact id
    | cons a as ih => exact fun htable => ih (htable.put a)
  exact hstep ⟨.nil, forall_mem_nil _⟩

theorem Keyed.text (h : table.Keyed name) (hfind : table.find? key = some value) : (name value).text = key :=
  h.texts _ (mem_of_find? hfind)

theorem Keyed.find? (h : table.Keyed name) {entry : String × α} (hentry : entry ∈ table.entries) :
    table.find? entry.1 = some entry.2 := by
  obtain ⟨before, after, heq⟩ := append_of_mem hentry
  have hkeys := h.keys
  rw [Table.keys, heq, map_append, map_cons, nodup_append] at hkeys
  refine List.lookup_eq_some_iff.2 ⟨before, after, heq, fun other hother => ?_⟩
  exact bne_iff_ne.2 (Ne.symm (hkeys.2.2 other.1 (mem_map_of_mem hother) entry.1 mem_cons_self))

end Table

end Smpl
