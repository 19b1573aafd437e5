import Mathlib.Data.List.Chain
import Mathlib.Data.List.Perm.Subperm
import Mathlib.Logic.Relation
import Smpl.Proofs.Failure.Outcome
import Smpl.Rust.Containment

namespace Smpl.Rust

open List

/-- A backend has no text for a construct of the program. -/
def IsLowering (failure : Failure) : Prop :=
  ∃ construct loc hint, failure = .diagnostic { cause := .cannotLower backendName construct hint, location := loc }

theorem IsLowering.isDiagnostic {failure : Failure} (h : IsLowering failure) : failure.IsDiagnostic := by
  obtain ⟨_, _, _, rfl⟩ := h
  exact ⟨_, rfl⟩

theorem failsOnly_cannotLower {α : Type} (construct : Construct) (loc : Option Location) (hint : Option String) :
    FailsOnly IsLowering (cannotLower construct loc hint : Except Failure α) :=
  .error ⟨construct, loc, hint, rfl⟩

/-- Values of one struct are part of the values of another one. -/
def Holds (structs : Table StructInfo) (name part : String) : Prop :=
  ∃ info, structs.find? name = some info ∧ part ∈ info.holds

/-- The parts of all structs are known. -/
def Complete (structs : Table StructInfo) : Prop :=
  ∀ {name info}, structs.find? name = some info → ∀ part ∈ info.holds, ∃ info', structs.find? part = some info'

/-- No struct holds itself, directly or through others. -/
def Acyclic (structs : Table StructInfo) : Prop :=
  ∀ name, ¬Relation.TransGen (Holds structs) name name

/-- A failure that reports a struct which holds itself: the structs from it back to it, each of which holds the next,
    at the place of that struct. -/
def ReportsCycle (structs : Table StructInfo) (failure : Failure) : Prop :=
  ∃ name between info, structs.find? name = some info ∧ (name :: (between ++ [name])).IsChain (Holds structs) ∧
    failure = .diagnostic
      { cause := .cannotLower backendName (.recursiveStruct (name :: (between ++ [name])))
          (some "a struct cannot contain itself by value")
        location := some info.loc }

theorem ReportsCycle.isLowering {structs : Table StructInfo} {failure : Failure} (h : ReportsCycle structs failure) :
    IsLowering failure := by
  obtain ⟨_, _, _, _, _, rfl⟩ := h
  exact ⟨_, _, _, rfl⟩

/-- A budget lasts for what the search does on a path: the structs on it are known and differ. -/
structure Lasts (structs : Table StructInfo) (budget : Nat) (path : List String) : Prop where
  nodup : path.Nodup
  known : ∀ name ∈ path, name ∈ structs.keys
  budget : structs.size < budget + path.length

/-- Each struct stands before its parts. -/
inductive Ordered (structs : Table StructInfo) : List String → Prop
  | nil : Ordered structs []
  | cons {name : String} {done : List String} :
    (∀ part, Holds structs name part → part ∈ done) → Ordered structs done → Ordered structs (name :: done)

section

variable {structs : Table StructInfo} {name : String} {info : StructInfo}

theorem require_eq_ok_iff : structs.require name = .ok info ↔ structs.find? name = some info := by
  unfold Table.require
  split
  · next hfind => simp [hfind]
  · next hfind => simp [hfind]

/-- Structs that each stand before their parts hold nothing but what stands behind them. -/
theorem Ordered.holds {done : List String} (h : Ordered structs done) {part : String} (hname : name ∈ done)
    (hholds : Relation.TransGen (Holds structs) name part) :
    part ∈ done ∧ ¬Relation.TransGen (Holds structs) name name := by
  induction h generalizing name part with
  | nil => cases hname
  | @cons first done hparts _ ih =>
    have hdown : ∀ {a b}, a ∈ done → Relation.TransGen (Holds structs) a b → b ∈ done := fun ha hab => (ih ha hab).1
    have hfirst : ∀ {b}, Relation.TransGen (Holds structs) first b → b ∈ done := by
      intro b hb
      obtain ⟨next, hnext, hrest⟩ := Relation.TransGen.head'_iff.1 hb
      rcases Relation.reflTransGen_iff_eq_or_transGen.1 hrest with rfl | hrest
      · exact hparts _ hnext
      · exact hdown (hparts next hnext) hrest
    rcases mem_cons.1 hname with rfl | hlater
    · refine ⟨mem_cons_of_mem name (hfirst hholds), fun hcycle => ?_⟩
      exact (ih (hfirst hcycle) hcycle).2 hcycle
    · exact ⟨mem_cons_of_mem first (hdown hlater hholds), (ih hlater hholds).2⟩

theorem mem_keys_of_find? (h : structs.find? name = some info) : name ∈ structs.keys :=
  mem_map.2 ⟨(name, info), mem_of_lookup h, rfl⟩

theorem find?_of_mem_keys (h : name ∈ structs.keys) : ∃ info, structs.find? name = some info := by
  rw [← Option.isSome_iff_exists, Table.find?, lookup_isSome_iff]
  obtain ⟨entry, hentry, rfl⟩ := mem_map.1 h
  exact ⟨entry, hentry, beq_self_eq_true entry.1⟩

theorem exists_dropWhile_ne {path : List String} (h : name ∈ path) :
    ∃ before rest, path = before ++ name :: rest ∧ path.dropWhile (· ≠ name) = name :: rest := by
  induction path with
  | nil => cases h
  | cons first path ih =>
    by_cases hfirst : first = name
    · subst hfirst
      exact ⟨[], path, rfl, by simp⟩
    · obtain ⟨before, rest, rfl, hdrop⟩ := ih ((mem_cons.1 h).resolve_left (Ne.symm hfirst))
      refine ⟨first :: before, rest, rfl, ?_⟩
      rw [dropWhile_cons_of_pos (by simpa using hfirst), hdrop]

namespace Lasts

variable {budget : Nat} {path : List String}

theorem start (structs : Table StructInfo) : Lasts structs (structs.size + 1) [] :=
  ⟨nodup_nil, forall_mem_nil _, Nat.lt_succ_self _⟩

/-- A path without repetitions through known structs is no longer than their table. -/
theorem budget_pos (h : Lasts structs budget path) : 0 < budget := by
  have hlength := (subperm_of_subset h.nodup h.known).length_le
  rw [Table.keys, length_map] at hlength
  exact Nat.pos_of_lt_add_left (Nat.lt_of_le_of_lt hlength h.budget)

theorem enter (h : Lasts structs (budget + 1) path) (hnew : name ∉ path) (hinfo : structs.find? name = some info) :
    Lasts structs budget (path ++ [name]) where
  nodup := by
    refine nodup_append.2 ⟨h.nodup, pairwise_singleton _ name, ?_⟩
    rintro a ha b hb rfl
    exact hnew (mem_singleton.1 hb ▸ ha)
  known := forall_mem_append.2 ⟨h.known, forall_mem_singleton.2 (mem_keys_of_find? hinfo)⟩
  budget := by
    have hbudget := h.budget
    rw [length_append, length_singleton]
    omega

end Lasts

/-- After a loop over names, in which each step orders a name and its parts, all of them are ordered. -/
theorem foldlM_ordered {step : List String → String → Except Failure (List String)}
    (hstep : ∀ {done next name}, Ordered structs done → step done name = .ok next →
      Ordered structs next ∧ name ∈ next ∧ done ⊆ next)
    {names done after : List String} (hordered : Ordered structs done) (h : names.foldlM step done = .ok after) :
    Ordered structs after ∧ (∀ name ∈ names, name ∈ after) ∧ done ⊆ after := by
  induction names generalizing done with
  | nil =>
    cases h
    exact ⟨hordered, forall_mem_nil _, List.Subset.refl _⟩
  | cons name names ih =>
    rw [foldlM_cons, bind_eq_ok_iff] at h
    obtain ⟨next, hnext, h⟩ := h
    obtain ⟨hnext, hname, hsub⟩ := hstep hordered hnext
    obtain ⟨hafter, hnames, hsub'⟩ := ih hnext h
    exact ⟨hafter, forall_mem_cons.2 ⟨hsub' hname, hnames⟩, List.Subset.trans hsub hsub'⟩

/-- What a step of the search leaves: the struct and all its parts are done. -/
theorem follow_spec {budget : Nat} {path done done' : List String} (hlasts : Lasts structs budget path)
    (hordered : Ordered structs done) (h : follow structs budget path done name = .ok done') :
    Ordered structs done' ∧ name ∈ done' ∧ done ⊆ done' := by
  induction budget generalizing path done done' name with
  | zero => exact absurd hlasts.budget_pos (Nat.lt_irrefl 0)
  | succ budget ih =>
    rw [follow] at h
    split at h
    · next hpath => simp [recursiveStruct, bind_eq_ok_iff, cannotLower] at h
    · next hpath =>
      split at h
      · next hdone =>
        cases h
        exact ⟨hordered, by simpa using hdone, List.Subset.refl _⟩
      · simp only [bind_eq_ok_iff, pure_eq_ok_iff] at h
        obtain ⟨info, hinfo, after, hafter, rfl⟩ := h
        rw [require_eq_ok_iff] at hinfo
        have hlasts' := hlasts.enter (mt contains_iff_mem.2 hpath) hinfo
        obtain ⟨hafter, hparts, hsub⟩ := foldlM_ordered (ih hlasts') hordered hafter
        refine ⟨.cons ?_ hafter, mem_cons_self, List.Subset.trans hsub (subset_cons_self name after)⟩
        rintro part ⟨info', hinfo', hpart⟩
        obtain rfl : info = info' := Option.some.inj (hinfo.symm.trans hinfo')
        exact hparts part hpart

variable (hcomplete : Complete structs) {budget : Nat} {path done : List String}
include hcomplete

/-- The search goes through if no struct on the path is reached again. -/
theorem exists_follow (hacyclic : Acyclic structs) (hknown : ∃ info, structs.find? name = some info)
    (hpath : ∀ above ∈ path, Relation.TransGen (Holds structs) above name) :
    ∃ done', follow structs budget path done name = .ok done' := by
  induction budget generalizing path done name with
  | zero => exact ⟨done, rfl⟩
  | succ budget ih =>
    obtain ⟨info, hinfo⟩ := hknown
    have hnew : ¬path.contains name = true := by
      intro hmem
      exact hacyclic name (hpath name (by simpa using hmem))
    rw [follow, if_neg hnew]
    split
    · exact ⟨done, rfl⟩
    have hparts : ∀ part ∈ info.holds, ∀ done,
        ∃ done', follow structs budget (path ++ [name]) done part = .ok done' := by
      intro part hpart done
      have hstep : Holds structs name part := ⟨info, hinfo, hpart⟩
      exact ih (hcomplete hinfo part hpart) (forall_mem_append.2
        ⟨fun above habove => (hpath above habove).tail hstep, forall_mem_singleton.2 (.single hstep)⟩)
    obtain ⟨after, hafter⟩ := exists_foldlM hparts done
    exact ⟨name :: after, by rw [require_eq_ok_iff.2 hinfo, ok_bind, hafter, ok_bind, pure_eq_ok]⟩

/-- Containment is accepted exactly if no struct holds itself. -/
theorem exists_checkContainment_iff : (∃ u, checkContainment structs = .ok u) ↔ Acyclic structs := by
  constructor
  · rintro ⟨u, h⟩ name hcycle
    simp only [checkContainment, bind_eq_ok_iff] at h
    obtain ⟨done, hdone, _⟩ := h
    obtain ⟨hordered, hkeys, _⟩ := foldlM_ordered (follow_spec (.start structs)) .nil hdone
    obtain ⟨_, ⟨info, hinfo, _⟩, _⟩ := Relation.TransGen.head'_iff.1 hcycle
    exact (hordered.holds (hkeys name (mem_keys_of_find? hinfo)) hcycle).2 hcycle
  · intro hacyclic
    have hkeys : ∀ name ∈ structs.keys, ∀ done,
        ∃ done', follow structs (structs.size + 1) [] done name = .ok done' := fun name hname done =>
      exists_follow hcomplete hacyclic (find?_of_mem_keys hname) (forall_mem_nil _)
    obtain ⟨done, hdone⟩ := exists_foldlM hkeys []
    exact ⟨(), by rw [checkContainment, hdone, ok_bind, pure_eq_ok]⟩

/-- The search fails only where a struct holds itself: all structs that it meets are known, and on its path each one
    holds the next. -/
theorem failsOnly_follow (hpath : (path ++ [name]).IsChain (Holds structs))
    (hname : ∃ info, structs.find? name = some info) :
    FailsOnly (ReportsCycle structs) (follow structs budget path done name) := by
  induction budget generalizing path done name with
  | zero => exact .ok done
  | succ budget ih =>
    obtain ⟨info, hinfo⟩ := hname
    have hrequire := require_eq_ok_iff.2 hinfo
    refine .ite (fun hmem => ?_) fun _ => .ite (fun _ => .ok done) fun _ =>
      .bind (.of_eq_ok hrequire) fun found hfound => ?_
    · obtain ⟨before, between, rfl, hdrop⟩ := exists_dropWhile_ne (contains_iff_mem.1 hmem)
      rw [append_assoc, cons_append, isChain_split] at hpath
      rw [recursiveStruct, hrequire, ok_bind, hdrop]
      exact .error ⟨name, between, info, hinfo, hpath.2, rfl⟩
    · obtain rfl : info = found := Except.ok.inj (hrequire.symm.trans hfound)
      refine .last (.foldlM (fun _ => True) (fun done _ part hpart => ⟨?_, fun _ _ => trivial⟩) trivial)
      refine ih ?_ (hcomplete hinfo part hpart)
      rw [append_assoc, singleton_append, isChain_split]
      exact ⟨hpath, isChain_pair.2 ⟨info, hinfo, hpart⟩⟩

/-- The search for structs that contain themselves reports a cycle or succeeds. -/
theorem failsOnly_checkContainment : FailsOnly (ReportsCycle structs) (checkContainment structs) := by
  refine .last (.foldlM (fun _ => True) (fun done _ name hname => ⟨?_, fun _ _ => trivial⟩) trivial)
  exact failsOnly_follow hcomplete (isChain_singleton name) (find?_of_mem_keys hname)

end

end Smpl.Rust
