import Smpl.Proofs.Relocate.Tree
import Smpl.Traced

namespace Smpl

open List

variable (move : Location → Location)

/-- Moves the places that a cause names. -/
def Cause.relocate : Cause → Cause
  | .duplicateModule name first => .duplicateModule name (first.map move)
  | .duplicateDeclaration name first hint => .duplicateDeclaration name (first.map move) hint
  | cause => cause

def Diagnostic.relocate (d : Diagnostic) : Diagnostic where
  cause := d.cause.relocate move
  location := d.location.map move
  sourceLine := d.sourceLine

/-- Moves the nodes that a defect shows. -/
def Defect.relocate : Defect → Defect
  | .unknownExpression node => .unknownExpression (node.relocate move)
  | .unknownStatement node => .unknownStatement (node.relocate move)
  | .unknownTypeExpr node => .unknownTypeExpr (node.relocate move)
  | defect => defect

def Failure.relocate : Failure → Failure
  | .diagnostic d => .diagnostic (d.relocate move)
  | .defect d => .defect (d.relocate move)

/-- Moves what some work gave: its result by a map of its own, its failure as failures are moved. -/
def relocateOutcome {α β : Type} (move : Location → Location) (g : α → β) : Except Failure α → Except Failure β
  | .ok a => .ok (g a)
  | .error failure => .error (failure.relocate move)

variable {α β γ δ : Type} {move} {g : α → β} {k : γ → δ} {step : α → Except Failure γ}
  {as : List α}

@[simp] theorem relocateOutcome_ok (a : α) : relocateOutcome move g (.ok a) = .ok (g a) := rfl

/-- Two steps in a row move as each of them does. -/
theorem bind_relocate {x : Except Failure α} {x' : Except Failure β} {next : α → Except Failure γ}
    {next' : β → Except Failure δ} (hx : x' = relocateOutcome move g x)
    (hnext : ∀ a, next' (g a) = relocateOutcome move k (next a)) :
    (x' >>= next') = relocateOutcome move k (x >>= next) := by
  subst hx
  cases x with
  | error failure => rfl
  | ok a => exact hnext a

/-- If each step moves along, so do all steps in turn. -/
theorem mapM_relocate {step' : β → Except Failure δ} (hstep : ∀ a ∈ as, step' (g a) = relocateOutcome move k (step a)) :
    (as.map g).mapM step' = relocateOutcome move (List.map k) (as.mapM step) :=
  forall_mem_induct as hstep rfl fun _ _ hfirst ih => by
    rw [map_cons, mapM_cons, mapM_cons]
    exact bind_relocate hfirst fun _ => bind_relocate ih fun _ => rfl

/-- A traversal whose results name no places moves in its failures only. -/
theorem mapM_relocate_id {step' : β → Except Failure γ}
    (hstep : ∀ a ∈ as, step' (g a) = relocateOutcome move id (step a)) :
    (as.map g).mapM step' = relocateOutcome move id (as.mapM step) := by
  rw [mapM_relocate hstep, map_id_fun]

theorem foldlM_relocate {step : γ → α → Except Failure γ} {step' : δ → β → Except Failure δ}
    (hstep : ∀ state a, step' (k state) (g a) = relocateOutcome move k (step state a)) (as : List α) (start : γ) :
    (as.map g).foldlM step' (k start) = relocateOutcome move k (as.foldlM step start) := by
  induction as generalizing start with
  | nil => rfl
  | cons a as ih =>
    rw [map_cons, foldlM_cons, foldlM_cons]
    exact bind_relocate (hstep start a) ih

theorem forM_relocate {step : α → Except Failure Unit} {step' : β → Except Failure Unit}
    (hstep : ∀ a ∈ as, step' (g a) = relocateOutcome move id (step a)) :
    (as.map g).forM step' = relocateOutcome move id (as.forM step) :=
  forall_mem_induct as hstep rfl fun _ _ hfirst ih => bind_relocate hfirst fun _ => ih

end Smpl
