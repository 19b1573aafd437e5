import Smpl.Diagnostic.Basic

namespace Smpl

/-- The outcome of some work, with the progress notes made and the number of tokens read on the way.
    What came before a failure stays. -/
structure Traced (α : Type) where
  notes : List String
  tokens : Nat
  outcome : Except Failure α

namespace Traced

/-- Work without notes. -/
def ofExcept {α : Type} (outcome : Except Failure α) : Traced α :=
  ⟨[], 0, outcome⟩

/-- Makes a note. -/
def note (text : String) : Traced Unit :=
  ⟨[text], 0, .ok ()⟩

/-- Counts tokens as read. -/
def count (tokens : Nat) : Traced Unit :=
  ⟨[], tokens, .ok ()⟩

/-- Work whose tokens do not count. -/
def uncounted {α : Type} (work : Traced α) : Traced α :=
  { work with tokens := 0 }

/-- Goes on with a result, if there is one. -/
def andThen {α β : Type} (work : Traced α) (next : α → Traced β) : Traced β :=
  match work.outcome with
  | .error failure => ⟨work.notes, work.tokens, .error failure⟩
  | .ok result =>
    let rest := next result
    ⟨work.notes ++ rest.notes, work.tokens + rest.tokens, rest.outcome⟩

instance : Monad Traced where
  pure result := ofExcept (.ok result)
  bind := andThen

instance : MonadLift (Except Failure) Traced where
  monadLift := ofExcept

end Traced

end Smpl
