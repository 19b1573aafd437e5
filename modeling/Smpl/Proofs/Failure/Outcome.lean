import Smpl.Proofs.Traverse

namespace Smpl

/-- Whatever failure some work ends with has a property. -/
def FailsOnly {α : Type} (P : Failure → Prop) (x : Except Failure α) : Prop :=
  ∀ failure, x = .error failure → P failure

/-- A diagnostic about a place in a file. -/
def Failure.LocatedIn (file : String) (failure : Failure) : Prop :=
  ∃ d loc, failure = .diagnostic d ∧ d.location = some loc ∧ loc.file = file

def Failure.IsDiagnostic (failure : Failure) : Prop :=
  ∃ d, failure = .diagnostic d

/-- Work that ends with a result or with a diagnostic about a place in a file. -/
abbrev FailsIn {α : Type} (file : String) (x : Except Failure α) : Prop :=
  FailsOnly (Failure.LocatedIn file) x

theorem Failure.LocatedIn.isDiagnostic {file : String} {failure : Failure} (h : failure.LocatedIn file) :
    failure.IsDiagnostic := by
  obtain ⟨d, _, hd, _⟩ := h
  exact ⟨d, hd⟩

namespace FailsOnly

variable {α β : Type} {P Q : Failure → Prop} {x : Except Failure α}

theorem ok (a : α) : FailsOnly P (.ok a) := by
  intro failure h
  cases h

theorem pure (a : α) : FailsOnly P (pure a : Except Failure α) := ok a

theorem of_eq_ok {a : α} (h : x = .ok a) : FailsOnly P x :=
  h ▸ ok a

theorem error {failure : Failure} (h : P failure) : FailsOnly P (.error failure : Except Failure α) := by
  intro failure' heq
  cases heq
  exact h

theorem mono (h : FailsOnly P x) (hPQ : ∀ failure, P failure → Q failure) : FailsOnly Q x :=
  fun failure heq => hPQ failure (h failure heq)

/-- Two steps in a row fail only as each of them does. -/
theorem bind {next : α → Except Failure β} (hx : FailsOnly P x) (hnext : ∀ a, x = .ok a → FailsOnly P (next a)) :
    FailsOnly P (x >>= next) := by
  cases x with
  | error failure => exact error (hx failure rfl)
  | ok a => exact hnext a rfl

/-- Work that returns what its last step gives fails only as that step does. -/
theorem last {f : α → β} (hx : FailsOnly P x) : FailsOnly P (x >>= fun a => Pure.pure (f a)) :=
  bind hx fun _ _ => pure _

theorem map {f : α → β} (hx : FailsOnly P x) : FailsOnly P (x.map f) := by
  cases x with
  | error failure => exact error (hx failure rfl)
  | ok a => exact ok (f a)

/-- Work on a list fails only as its steps do. -/
theorem mapM {f : α → Except Failure β} {as : List α} (h : ∀ a ∈ as, FailsOnly P (f a)) : FailsOnly P (as.mapM f) :=
  forall_mem_induct as h (pure []) fun _ _ hfirst ih => by
    rw [List.mapM_cons]
    exact bind hfirst fun _ _ => last ih

theorem forM {f : α → Except Failure Unit} {as : List α} (h : ∀ a ∈ as, FailsOnly P (f a)) : FailsOnly P (as.forM f) :=
  forall_mem_induct as h (pure ()) fun _ _ hfirst ih => bind hfirst fun _ _ => ih

/-- A loop fails only as its steps do, in the states that an invariant allows. -/
theorem foldlM {f : β → α → Except Failure β} (inv : β → Prop) {as : List α}
    (hstep : ∀ state, inv state → ∀ a ∈ as, FailsOnly P (f state a) ∧ ∀ state', f state a = .ok state' → inv state')
    {start : β} (hstart : inv start) : FailsOnly P (as.foldlM f start) := by
  induction as generalizing start with
  | nil => exact pure start
  | cons a as ih =>
    rw [List.foldlM_cons]
    obtain ⟨hfirst, hkeeps⟩ := hstep start hstart a List.mem_cons_self
    exact bind hfirst fun state hstate => ih (fun state hinv a' ha' => hstep state hinv a' (List.mem_cons_of_mem a ha'))
      (hkeeps state hstate)

theorem ite {p : Prop} [Decidable p] {y : Except Failure α} (hx : p → FailsOnly P x) (hy : ¬p → FailsOnly P y) :
    FailsOnly P (if p then x else y) := by
  split
  · next hp => exact hx hp
  · next hp => exact hy hp

end FailsOnly

/-- A diagnostic is located where it is reported. -/
theorem failsIn_refuse {α : Type} {file : String} (cause : Cause) {loc : Location} (h : loc.file = file) :
    FailsIn file (refuse cause loc : Except Failure α) :=
  .error ⟨_, loc, rfl, rfl, h⟩

end Smpl
