import Mathlib.Data.List.Forall2
import Smpl.Proofs.Outcome

namespace Smpl

open List

variable {ε α β : Type} {f : α → Except ε β} {as : List α} {bs : List β} {R S : α → β → Prop} {γ : Type} {b : β}
  {key : String} {value : α} {entries : List (String × α)}

/-- A walk over a list that takes each element by itself is a map. -/
theorem eq_map_of_cons {g : α → β} {walk : List α → List β} (hnil : walk [] = [])
    (hcons : ∀ a as, walk (a :: as) = g a :: walk as) : walk as = as.map g := by
  induction as with
  | nil => exact hnil
  | cons a as ih => rw [hcons, ih, map_cons]

theorem eq_flatMap_of_cons {g : α → List β} {walk : List α → List β} (hnil : walk [] = [])
    (hcons : ∀ a as, walk (a :: as) = g a ++ walk as) : walk as = as.flatMap g := by
  induction as with
  | nil => exact hnil
  | cons a as ih => rw [hcons, ih, flatMap_cons]

theorem eq_mapM_of_cons {walk : List α → Except ε (List β)} (hnil : walk [] = .ok [])
    (hcons : ∀ a as, walk (a :: as) = do let b ← f a; let bs ← walk as; return b :: bs) :
    walk as = as.mapM f := by
  induction as with
  | nil => exact hnil
  | cons a as ih => rw [hcons, ih, mapM_cons]

theorem map_eq_self_of_mem {g : α → α} (h : ∀ a ∈ as, g a = a) : as.map g = as :=
  (map_congr_left h).trans (map_id' as)

/-- Induction over a list whose elements have a property. -/
@[elab_as_elim] theorem forall_mem_induct {p : α → Prop} {motive : List α → Prop} (as : List α) (h : ∀ a ∈ as, p a)
    (nil : motive []) (cons : ∀ a as, p a → motive as → motive (a :: as)) : motive as := by
  induction as with
  | nil => exact nil
  | cons a as ih =>
    obtain ⟨hfirst, hothers⟩ := forall_mem_cons.1 h
    exact cons a as hfirst (ih hothers)

/-- A step over every element of a list succeeds exactly if it does on each. -/
theorem mapM_eq_ok_iff : as.mapM f = .ok bs ↔ Forall₂ (fun a b => f a = .ok b) as bs := by
  induction as generalizing bs with
  | nil =>
    rw [mapM_nil, pure_eq_ok_iff, forall₂_nil_left_iff, eq_comm]
  | cons a as ih =>
    rw [mapM_cons, forall₂_cons_left_iff]
    simp only [bind_eq_ok_iff, pure_eq_ok_iff, ih]
    constructor
    · rintro ⟨b, hb, bs', hbs, rfl⟩
      exact ⟨b, bs', hb, hbs, rfl⟩
    · rintro ⟨b, bs', hb, hbs, rfl⟩
      exact ⟨b, hb, bs', hbs, rfl⟩

theorem forall₂_imp_of_mem (h : ∀ a ∈ as, ∀ b, R a b → S a b) (hrel : Forall₂ R as bs) : Forall₂ S as bs := by
  induction hrel with
  | nil => exact .nil
  | cons hfirst _ ih =>
    obtain ⟨hhead, htail⟩ := forall_mem_cons.1 h
    exact .cons (hhead _ hfirst) (ih htail)

theorem forall₂_congr_of_mem (h : ∀ a ∈ as, ∀ b, R a b ↔ S a b) : Forall₂ R as bs ↔ Forall₂ S as bs :=
  ⟨forall₂_imp_of_mem fun a ha b => (h a ha b).1, forall₂_imp_of_mem fun a ha b => (h a ha b).2⟩

/-- Elements can be chosen one by one. -/
theorem exists_forall₂ (h : ∀ a ∈ as, ∃ b, R a b) : ∃ bs, Forall₂ R as bs := by
  induction as with
  | nil => exact ⟨[], .nil⟩
  | cons a as ih =>
    obtain ⟨b, hb⟩ := h a mem_cons_self
    obtain ⟨bs, hbs⟩ := ih fun a' ha' => h a' (mem_cons_of_mem a ha')
    exact ⟨b :: bs, .cons hb hbs⟩

/-- A step that succeeds on each element gives results in the relation that each of them has. -/
theorem exists_mapM_eq_ok (h : ∀ a ∈ as, ∃ b, f a = .ok b ∧ R a b) :
    ∃ bs, as.mapM f = .ok bs ∧ Forall₂ R as bs := by
  obtain ⟨bs, hbs⟩ := exists_forall₂ h
  exact ⟨bs, mapM_eq_ok_iff.2 (hbs.imp fun _ _ hstep => hstep.1), hbs.imp fun _ _ hstep => hstep.2⟩

theorem exists_of_forall₂_of_mem (h : Forall₂ R as bs) {a : α} (ha : a ∈ as) : ∃ b ∈ bs, R a b := by
  induction h with
  | nil => cases ha
  | @cons first b as bs hfirst _ ih =>
    rcases mem_cons.1 ha with rfl | hlater
    · exact ⟨b, mem_cons_self, hfirst⟩
    · obtain ⟨b', hb', hrel⟩ := ih hlater
      exact ⟨b', mem_cons_of_mem b hb', hrel⟩

theorem exists_of_forall₂_of_mem_right (h : Forall₂ R as bs) (hb : b ∈ bs) : ∃ a ∈ as, R a b :=
  exists_of_forall₂_of_mem (Forall₂.flip (R := flip R) h) hb

theorem mapM_map_eq_ok_of_mem {f' : β → Except ε γ} {g : α → β} {g' : α → γ} (h : ∀ a ∈ as, f' (g a) = .ok (g' a)) :
    (as.map g).mapM f' = .ok (as.map g') := by
  rw [mapM_eq_ok_iff, forall₂_map_left_iff, forall₂_map_right_iff, forall₂_same]
  exact h

/-- If a second step succeeds on what is made of each result of the first, so does the traversal. -/
theorem mapM_map_of_mapM {δ : Type} {f' : γ → Except ε δ} {g : β → γ} {g' : β → δ}
    (hstep : ∀ a ∈ as, ∀ b, f a = .ok b → f' (g b) = .ok (g' b)) (h : as.mapM f = .ok bs) :
    (bs.map g).mapM f' = .ok (bs.map g') := by
  rw [mapM_eq_ok_iff] at h
  refine mapM_map_eq_ok_of_mem fun b hb => ?_
  obtain ⟨a, ha, hresult⟩ := exists_of_forall₂_of_mem_right h hb
  exact hstep a ha b hresult

/-- Two lists that are related to a third are related to each other. -/
theorem forall₂_of_common {S : α → γ → Prop} {T : β → γ → Prop} {cs : List γ}
    (h : ∀ a ∈ as, ∀ b c, R a b → S a c → T b c) (hbs : Forall₂ R as bs) (hcs : Forall₂ S as cs) :
    Forall₂ T bs cs := by
  induction hbs generalizing cs with
  | nil =>
    cases hcs
    exact .nil
  | cons hb _ ih =>
    cases hcs with
    | cons hc hcs =>
      obtain ⟨hhead, htail⟩ := forall_mem_cons.1 h
      exact .cons (hhead _ _ hb hc) (ih htail hcs)

theorem map_eq_of_forall₂ {g : β → α} (h : ∀ a ∈ as, ∀ b, R a b → g b = a) (hrel : Forall₂ R as bs) :
    bs.map g = as := by
  induction hrel with
  | nil => rfl
  | cons hfirst _ ih =>
    obtain ⟨hhead, htail⟩ := forall_mem_cons.1 h
    rw [map_cons, hhead _ hfirst, ih htail]

theorem exists_mapM_iff : (∃ bs, as.mapM f = .ok bs) ↔ ∀ a ∈ as, ∃ b, f a = .ok b := by
  constructor
  · rintro ⟨bs, hbs⟩ a ha
    obtain ⟨b, _, hb⟩ := exists_of_forall₂_of_mem (mapM_eq_ok_iff.1 hbs) ha
    exact ⟨b, hb⟩
  · intro h
    obtain ⟨bs, hbs⟩ := exists_forall₂ h
    exact ⟨bs, mapM_eq_ok_iff.2 hbs⟩

/-- What a step over every element gives is what it gives for the elements. -/
theorem mem_of_mapM_eq_ok (h : as.mapM f = .ok bs) : b ∈ bs ↔ ∃ a ∈ as, f a = .ok b := by
  rw [mapM_eq_ok_iff] at h
  constructor
  · exact exists_of_forall₂_of_mem_right h
  · rintro ⟨a, ha, hb⟩
    obtain ⟨b', hmem, hb'⟩ := exists_of_forall₂_of_mem h ha
    rwa [Except.ok.inj (hb.symm.trans hb')]

/-- What a step ensures of each of its results holds of all results. -/
theorem forall_mem_of_mapM {p : β → Prop} (hstep : ∀ a ∈ as, ∀ {b}, f a = .ok b → p b) (h : as.mapM f = .ok bs) :
    ∀ b ∈ bs, p b := by
  intro b hb
  obtain ⟨a, ha, hstepped⟩ := (mem_of_mapM_eq_ok h).1 hb
  exact hstep a ha hstepped

/-- A view of the results of a step over every element of a list, element by element. -/
theorem exists_mapM_map_iff {g : β → γ} {cs : List γ} :
    (∃ bs, as.mapM f = .ok bs ∧ bs.map g = cs) ↔ Forall₂ (fun a c => ∃ b, f a = .ok b ∧ g b = c) as cs := by
  simp only [mapM_eq_ok_iff]
  induction as generalizing cs with
  | nil => simp [eq_comm]
  | cons a as ih =>
    simp only [forall₂_cons_left_iff, ← ih]
    constructor
    · rintro ⟨_, ⟨b, bs, hb, hbs, rfl⟩, rfl⟩
      exact ⟨g b, bs.map g, ⟨b, hb, rfl⟩, ⟨bs, hbs, rfl⟩, rfl⟩
    · rintro ⟨_, _, ⟨b, hb, rfl⟩, ⟨bs, hbs, rfl⟩, rfl⟩
      exact ⟨b :: bs, ⟨b, bs, hb, hbs, rfl⟩, rfl⟩

/-- Elements for which a step gives nothing can be left out. -/
theorem map_flatten_mapM_filter {f : α → Except ε (List β)} {p : α → Bool} (h : ∀ a ∈ as, p a = false → f a = .ok []) :
    ((as.filter p).mapM f).map List.flatten = (as.mapM f).map List.flatten := by
  induction as with
  | nil => rfl
  | cons a as ih =>
    obtain ⟨hfirst, hothers⟩ := forall_mem_cons.1 h
    have ih := ih hothers
    cases hp : p a with
    | true =>
      rw [filter_cons_of_pos hp, mapM_cons, mapM_cons]
      cases f a with
      | error failure => rfl
      | ok b =>
        have hcons : ∀ lists : Except ε (List (List β)),
            (do let others ← lists; pure (b :: others)).map List.flatten = (lists.map List.flatten).map (b ++ ·) := by
          intro lists
          cases lists <;> rfl
        rw [ok_bind, ok_bind, hcons, hcons, ih]
    | false =>
      rw [filter_cons_of_neg (by simp [hp]), mapM_cons, hfirst hp, ih]
      cases as.mapM f <;> rfl

theorem lookup_cons {key' : String} :
    ((key, value) :: entries).lookup key' = if key' = key then some value else entries.lookup key' := by
  by_cases hkey : key' = key
  · rw [if_pos hkey, hkey, lookup_cons_self]
  · rw [if_neg hkey, List.lookup_cons, beq_false_of_ne hkey]

theorem lookup_map_snd [BEq α] (g : β → γ) (entries : List (α × β)) (key : α) :
    (entries.map fun entry => (entry.1, g entry.2)).lookup key = (entries.lookup key).map g := by
  induction entries with
  | nil => rfl
  | cons entry entries ih =>
    rw [map_cons, List.lookup_cons, List.lookup_cons, ih]
    cases key == entry.1 <;> rfl

/-- What is found under a key is an entry of the list. -/
theorem mem_of_lookup (h : entries.lookup key = some value) : (key, value) ∈ entries := by
  obtain ⟨before, after, rfl, _⟩ := List.lookup_eq_some_iff.1 h
  exact mem_append_cons_self

/-- A fold whose steps cannot fail comes to its end. -/
theorem exists_foldlM {ε σ : Type} {step : σ → α → Except ε σ} (h : ∀ a ∈ as, ∀ state, ∃ next, step state a = .ok next)
    (start : σ) : ∃ out, as.foldlM step start = .ok out := by
  induction as generalizing start with
  | nil => exact ⟨start, rfl⟩
  | cons a as ih =>
    obtain ⟨hfirst, hothers⟩ := forall_mem_cons.1 h
    obtain ⟨next, hnext⟩ := hfirst start
    obtain ⟨out, hout⟩ := ih hothers next
    exact ⟨out, by rw [foldlM_cons, hnext, ok_bind, hout]⟩

end Smpl
