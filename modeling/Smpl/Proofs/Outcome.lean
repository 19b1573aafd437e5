import Smpl.Diagnostic.Basic

namespace Smpl

/-- A sequence of two steps succeeds exactly if the first does and the second does on its result. -/
theorem bind_eq_ok_iff {ε α β : Type} {x : Except ε α} {f : α → Except ε β} {b : β} :
    (x >>= f) = .ok b ↔ ∃ a, x = .ok a ∧ f a = .ok b := by
  cases x <;> simp [bind, Except.bind]

@[simp] theorem ok_bind {ε α β : Type} (a : α) (f : α → Except ε β) : (Except.ok a >>= f) = f a := rfl

@[simp] theorem pure_eq_ok {ε α : Type} (a : α) : (pure a : Except ε α) = .ok a := rfl

theorem pure_eq_ok_iff {ε α : Type} {a b : α} : (pure a : Except ε α) = .ok b ↔ a = b := by
  rw [pure_eq_ok, Except.ok.injEq]

@[simp] theorem refuse_eq_ok_iff {α : Type} {cause : Cause} {loc : Location} {a : α} :
    refuse cause loc = .ok a ↔ False := by
  simp [refuse]

theorem exists_eq_ok_of_any {ε α : Type} {x : Except ε α} {p : α → Bool} (h : x.toOption.any p = true) :
    ∃ a, x = .ok a ∧ p a = true := by
  cases x with
  | error => cases h
  | ok a => exact ⟨a, rfl, h⟩

section Steps

variable {ε α β γ δ : Type} {x : Except ε α} {y : α → Except ε β} {z : α → β → Except ε γ} {w : α → β → γ → Except ε δ}

/-- A step that succeeds and passes a test has what follows from that. -/
theorem exists_ok {p : α → Bool} {P : α → Prop} (hall : x.toOption.any p = true)
    (h : ∀ a, x = .ok a → p a = true → P a) : ∃ a, x = .ok a ∧ P a :=
  (exists_eq_ok_of_any hall).imp fun a ha => ⟨ha.1, h a ha.1 ha.2⟩

/-- Two such steps, the second on the result of the first. -/
theorem exists_ok₂ {p : α → β → Bool} {P : α → β → Prop}
    (hall : (x.toOption.any fun a => (y a).toOption.any (p a)) = true)
    (h : ∀ a b, x = .ok a → y a = .ok b → p a b = true → P a b) : ∃ a, x = .ok a ∧ ∃ b, y a = .ok b ∧ P a b :=
  exists_ok hall fun a ha hall => exists_ok hall fun b => h a b ha

theorem exists_ok₃ {p : α → β → γ → Bool} {P : α → β → γ → Prop}
    (hall : (x.toOption.any fun a => (y a).toOption.any fun b => (z a b).toOption.any (p a b)) = true)
    (h : ∀ a b c, x = .ok a → y a = .ok b → z a b = .ok c → p a b c = true → P a b c) :
    ∃ a, x = .ok a ∧ ∃ b, y a = .ok b ∧ ∃ c, z a b = .ok c ∧ P a b c :=
  exists_ok hall fun a ha hall => exists_ok₂ hall fun b c => h a b c ha

theorem exists_ok₄ {p : α → β → γ → δ → Bool} {P : α → β → γ → δ → Prop}
    (hall : (x.toOption.any fun a => (y a).toOption.any fun b => (z a b).toOption.any fun c =>
      (w a b c).toOption.any (p a b c)) = true)
    (h : ∀ a b c d, x = .ok a → y a = .ok b → z a b = .ok c → w a b c = .ok d → p a b c d = true → P a b c d) :
    ∃ a, x = .ok a ∧ ∃ b, y a = .ok b ∧ ∃ c, z a b = .ok c ∧ ∃ d, w a b c = .ok d ∧ P a b c d :=
  exists_ok hall fun a ha hall => exists_ok₃ hall fun b c d => h a b c d ha

end Steps

end Smpl
