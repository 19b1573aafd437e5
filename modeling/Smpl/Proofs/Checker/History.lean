import Smpl.Proofs.Checker.Stmt

namespace Smpl.Scope

open List

/-- What can be done with the open blocks. -/
inductive Step
  | push
  | pop
  | declare (symbol : Local)
  | lookup (name : String)

/-- The answer to a step and the blocks after it. The outermost block is not closed, and a declaration that is refused
    changes nothing. -/
def step (scope : Scope) : Step → Except Failure (Option Local) × Scope
  | .push => (.ok none, scope.push)
  | .pop => (.ok none, scope.pop?.getD scope)
  | .declare symbol =>
    match scope.declare symbol with
    | .ok declared => (.ok (some symbol), declared)
    | .error failure => (.error failure, scope)
  | .lookup name => (.ok (scope.lookup name), scope)

/-- The open blocks after a history, in which the latest step stands first. -/
def after : List Step → Scope
  | [] => .empty
  | step :: past => ((after past).step step).2

/-- The open blocks by the number of steps up to the one that opened them, the innermost first. The outermost block was
    open before the first step. -/
def opened : List Step → List Nat
  | [] => [0]
  | .push :: past => (past.length + 1) :: opened past
  | .pop :: past => if (opened past).tail = [] then opened past else (opened past).tail
  | .declare _ :: past | .lookup _ :: past => opened past

def innermost (past : List Step) : Nat :=
  (opened past).headD 0

/-- The declarations that succeeded while a block was the innermost one, the latest first. -/
def declaredIn (block : Nat) : List Step → List Local
  | [] => []
  | .declare symbol :: past =>
    match (after past).declare symbol with
    | .ok _ => if innermost past = block then symbol :: declaredIn block past else declaredIn block past
    | .error _ => declaredIn block past
  | .push :: past | .pop :: past | .lookup _ :: past => declaredIn block past

/-- The last declaration of a name that succeeded in a block. -/
def lastDeclared (past : List Step) (name : String) (block : Nat) : Option Local :=
  (declaredIn block past).find? fun symbol => symbol.name = name

/-- Steps after which the block that was the innermost one is so again, without having been closed. -/
inductive Balanced : List Step → Prop
  | nil : Balanced []
  | declare {symbol : Local} {steps : List Step} : Balanced steps → Balanced (.declare symbol :: steps)
  | lookup {name : String} {steps : List Step} : Balanced steps → Balanced (.lookup name :: steps)
  | block {inner steps : List Step} : Balanced inner → Balanced steps → Balanced (.pop :: (inner ++ .push :: steps))

variable {past : List Step} {block : Nat} {symbol : Local} {name : String}

/-- The open blocks were opened one after the other, none of them after the last step. -/
theorem opened_spec (past : List Step) :
    (∀ block ∈ opened past, block ≤ past.length) ∧ (opened past).Pairwise (· > ·) := by
  induction past with
  | nil => simp [opened]
  | cons step past ih =>
    obtain ⟨hbound, hordered⟩ := ih
    have hlater : ∀ block ∈ opened past, block ≤ past.length + 1 := fun block hblock =>
      Nat.le_succ_of_le (hbound block hblock)
    cases step with
    | push =>
      exact ⟨forall_mem_cons.2 ⟨Nat.le_refl _, hlater⟩,
        pairwise_cons.2 ⟨fun block hblock => Nat.lt_succ_of_le (hbound block hblock), hordered⟩⟩
    | pop =>
      have hsublist : (opened (.pop :: past)).Sublist (opened past) := by
        rw [opened]
        split
        · exact .refl _
        · exact tail_sublist _
      exact ⟨fun block hblock => hlater block (hsublist.subset hblock), hordered.sublist hsublist⟩
    | declare | lookup => exact ⟨hlater, hordered⟩

theorem innermost_le_length (past : List Step) : innermost past ≤ past.length := by
  have hbound := (opened_spec past).1
  rw [innermost]
  cases hopened : opened past with
  | nil => exact Nat.zero_le _
  | cons block blocks => exact hbound block (hopened ▸ mem_cons_self)

/-- Nothing was declared in a block that is opened later. -/
theorem declaredIn_eq_nil (h : past.length < block) : declaredIn block past = [] := by
  induction past with
  | nil => rfl
  | cons step past ih =>
    have hpast : past.length < block := Nat.lt_of_succ_lt h
    cases step with
    | declare symbol =>
      have hother : innermost past ≠ block := Nat.ne_of_lt (Nat.lt_of_le_of_lt (innermost_le_length past) hpast)
      rw [declaredIn, if_neg hother, ih hpast]
      split <;> rfl
    | push | pop | lookup => exact ih hpast

theorem frames_pop (scope : Scope) : (scope.step .pop).2.frames =
    if scope.frames.tail = [] then scope.frames else scope.frames.tail := by
  obtain ⟨current, outer⟩ := scope
  cases outer <;> rfl

/-- One step keeps the blocks what their history says. -/
theorem frames_step (h : (after past).frames = (opened past).map (declaredIn · past)) (step : Step) :
    (after (step :: past)).frames = (opened (step :: past)).map (declaredIn · (step :: past)) := by
  cases step with
  | push =>
    have hnew : declaredIn (past.length + 1) past = [] := declaredIn_eq_nil (Nat.lt_succ_self _)
    simp only [opened, map_cons, declaredIn, hnew, ← h]
    rfl
  | pop =>
    by_cases hlast : (opened past).tail = []
    · simp only [after, frames_pop, h, opened, ← map_tail, hlast, map_nil, if_true, declaredIn]
    · simp only [after, frames_pop, h, opened, ← map_tail, map_eq_nil_iff, hlast, if_false, declaredIn]
  | declare symbol =>
    rw [after, opened, step]
    cases hdeclare : (after past).declare symbol with
    | error failure => simp only [declaredIn, hdeclare, h]
    | ok scope =>
      obtain ⟨_, rfl⟩ := declare_eq_ok_iff.1 hdeclare
      obtain ⟨block, blocks, hopened, hcurrent, houter⟩ := map_eq_cons_iff.1 h.symm
      have hinnermost : innermost past = block := by rw [innermost, hopened, headD_cons]
      have hothers : ∀ other ∈ blocks, declaredIn other (.declare symbol :: past) = declaredIn other past := by
        intro other hother
        have hordered := (opened_spec past).2
        rw [hopened, pairwise_cons] at hordered
        have hearlier : innermost past ≠ other := hinnermost ▸ Nat.ne_of_gt (hordered.1 other hother)
        simp only [declaredIn, hdeclare, if_neg hearlier]
      have hhere : declaredIn block (.declare symbol :: past) = symbol :: (after past).current := by
        simp only [declaredIn, hdeclare, if_pos hinnermost, hcurrent]
      rw [hopened, map_cons, hhere, map_congr_left hothers, houter]
      rfl
  | lookup name => exact h

/-- The open blocks hold what was declared in them. -/
theorem frames_after (past : List Step) : (after past).frames = (opened past).map (declaredIn · past) := by
  induction past with
  | nil => rfl
  | cons step past ih => exact frames_step ih step

/-- A look-up goes through the open blocks from the innermost one. -/
theorem lookup_after (past : List Step) (name : String) :
    (after past).lookup name = (opened past).findSome? (lastDeclared past name) := by
  rw [lookup, frames_after, findSome?_map]
  rfl

/-- The innermost block holds what was declared in it. -/
theorem findIn_current_after (past : List Step) (name : String) :
    findIn name (after past).current = lastDeclared past name (innermost past) := by
  obtain ⟨block, blocks, hopened, hcurrent, _⟩ := map_eq_cons_iff.1 (frames_after past).symm
  rw [← hcurrent, innermost, hopened, headD_cons]
  rfl

theorem after_append_congr {past' : List Step} (h : after past = after past') (later : List Step) :
    after (later ++ past) = after (later ++ past') := by
  induction later with
  | nil => exact h
  | cons step later ih => rw [cons_append, cons_append, after, after, ih]

/-- Steps that close what they open leave the blocks around them alone. -/
theorem Balanced.outer_after {steps : List Step} (h : Balanced steps) (past : List Step) :
    (after (steps ++ past)).outer = (after past).outer := by
  induction h generalizing past with
  | nil => rfl
  | @declare symbol steps _ ih =>
    rw [← ih past, cons_append, after, step]
    cases hdeclare : (after (steps ++ past)).declare symbol with
    | error failure => rfl
    | ok scope => rw [(declare_eq_ok_iff.1 hdeclare).2]
  | lookup _ ih => exact ih past
  | @block inner steps _ _ ihinner ih =>
    have hinner := ihinner (.push :: (steps ++ past))
    rw [cons_append, append_assoc, cons_append, after, step, pop?, hinner]
    exact ih past

/-- Closing a block brings back what was there before it was opened. -/
theorem Balanced.after_block {steps : List Step} (h : Balanced steps) (past : List Step) :
    after (.pop :: (steps ++ .push :: past)) = after past := by
  rw [after, step, pop?, h.outer_after (.push :: past)]
  rfl

/-- The visible names are those that a look-up finds. -/
theorem mem_visibleNames_iff {scope : Scope} {name : String} :
    name ∈ scope.visibleNames ↔ ∃ symbol, scope.lookup name = some symbol := by
  rw [visibleNames, sortedNames, mem_mergeSort, mem_eraseDups, lookup]
  simp [findIn, ← Option.isSome_iff_exists]

/-- After any history, a look-up answers with the last declaration of the name that succeeded in the innermost open
    block that has one. A declaration succeeds unless the innermost block has one of that name; then it is refused and
    changes no later answer. A block that is closed leaves every look-up as it was before the block, and the visible
    names are those that a look-up finds. -/
theorem history_determines_answers (past : List Step) :
    (∀ name, (after past).lookup name = (opened past).findSome? (lastDeclared past name)) ∧
    (∀ symbol, lastDeclared past symbol.name (innermost past) = none →
      ((after past).step (.declare symbol)).1 = .ok (some symbol)) ∧
    (∀ symbol first, lastDeclared past symbol.name (innermost past) = some first →
      ((after past).step (.declare symbol)).1 =
        refuse (.duplicateDeclaration symbol.name (some first.loc) none) symbol.loc ∧
      ∀ later next, ((after (later ++ .declare symbol :: past)).step next).1 = ((after (later ++ past)).step next).1) ∧
    (∀ steps, Balanced steps → ∀ name,
      (after (.pop :: (steps ++ .push :: past))).lookup name = (after past).lookup name) ∧
    ∀ name, name ∈ (after past).visibleNames ↔ ∃ symbol, (after past).lookup name = some symbol := by
  refine ⟨lookup_after past, fun symbol hnew => ?_, fun symbol first hfirst => ?_, fun steps hsteps name => ?_,
    fun name => mem_visibleNames_iff⟩
  · rw [← findIn_current_after] at hnew
    simp only [step, declare, hnew]
  · rw [← findIn_current_after] at hfirst
    have hrefused : (after past).declare symbol =
        refuse (.duplicateDeclaration symbol.name (some first.loc) none) symbol.loc := by
      simp only [declare, hfirst]
    have hsame : after (.declare symbol :: past) = after past := by
      simp only [after, step, hrefused, refuse]
    exact ⟨by simp only [step, hrefused, refuse], fun later next => by rw [after_append_congr hsame later]⟩
  · rw [hsteps.after_block]

/-- A second declaration in the block of the parameters, tried after an inner block with one of its own is closed. -/
theorem history_determines_answers_shadowed :
    let x (line : Int) : Local := ⟨"x", .int, ⟨"m", line, 1⟩, false⟩
    let past : List Step := [.declare (x 3), .pop, .declare (x 2), .push, .declare (x 1)]
    (after past).lookup "x" = some (x 1) ∧ (after past.tail).lookup "x" = some (x 1) ∧
      ((after past.tail).step (.declare (x 3))).1 =
        refuse (.duplicateDeclaration "x" (some (x 1).loc) none) (x 3).loc := by
  intro x past
  have hopened : lastDeclared past.tail "x" (innermost past.tail) = some (x 1) := by decide +kernel
  have hblock : Balanced [.declare (x 2)] := .declare .nil
  exact ⟨((history_determines_answers past).1 "x").trans (by decide +kernel),
    ((history_determines_answers [.declare (x 1)]).2.2.2.1 _ hblock "x").trans (by decide +kernel),
    ((history_determines_answers past.tail).2.2.1 (x 3) (x 1) hopened).1⟩

end Smpl.Scope
