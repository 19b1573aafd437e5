import Smpl.Proofs.Print.Derivation.Expression

namespace Smpl

open List Grammar

theorem sameStmts_of_forall₂ {stmts stmts' : List Stmt}
    (h : Forall₂ (fun stmt stmt' => stmt.grouped.same stmt' = true) stmts stmts') :
    sameStmts (groupedStmts stmts) stmts' = true := by
  induction h with
  | nil => rw [groupedStmts, sameStmts]
  | cons hfirst _ ih => rw [groupedStmts, sameStmts, hfirst, ih, Bool.and_self]

section

variable {α : Type} {element : Rule α} {R : α → α → Prop} {kinds : α → List TokenKind} {as : List α}

theorem Grammar.many_of_spelled
    (h : ∀ a ∈ as, ∀ ⦃ts rest⦄, Spelled (kinds a) ts rest → ∃ a', element a' ts rest ∧ R a a') {ts rest : Tokens}
    (hspelled : Spelled (as.flatMap kinds) ts rest) :
    ∃ as', Many element as' ts rest ∧ Forall₂ R as as' := by
  induction as generalizing ts with
  | nil =>
    rw [spelled_nil_iff.1 hspelled]
    exact ⟨[], .nil, .nil⟩
  | cons a as ih =>
    rw [flatMap_cons, spelled_append_iff] at hspelled
    obtain ⟨t, hfirst, hothers⟩ := hspelled
    obtain ⟨a', ha', hrel⟩ := h a mem_cons_self hfirst
    obtain ⟨as', has', hrels⟩ := ih (fun b hb => h b (mem_cons_of_mem a hb)) hothers
    exact ⟨a' :: as', .cons ha' has', .cons hrel hrels⟩

end

variable {body : Block Stmt} {ts rest : Tokens}

/-- Whether the tokens of a statement derive it with the parentheses that were added. -/
def Stmt.Derives (stmt : Stmt) : Prop :=
  ∀ ⦃ts rest⦄, Spelled stmt.kinds ts rest → ∃ stmt', Statement stmt' ts rest ∧ stmt.grouped.same stmt' = true

/-- The tokens of a block derive it, if those of its statements do. -/
theorem braced_of_spelled (h : ∀ stmt ∈ body.statements, stmt.Derives) (hspelled : Spelled (blockKinds body) ts rest) :
    ∃ body', Braced Statement body' ts rest ∧ sameBlock (groupedBlock body) body' = true := by
  obtain ⟨_, stmts⟩ := body
  simp only [blockKinds, stmtsKinds_eq_flatMap, cons_append, spelled_append_iff, spelled_cons_iff,
    spelled_nil_iff] at hspelled
  obtain ⟨loc, _, hopen, _, hstmts, _, _, hclose, rfl⟩ := hspelled
  obtain ⟨stmts', hstmts', hsame⟩ := many_of_spelled h hstmts
  refine ⟨⟨loc, stmts'⟩, .mk hopen hstmts' hclose, ?_⟩
  rw [groupedBlock, sameBlock]
  exact sameStmts_of_forall₂ hsame

theorem guarded_of_spelled {word : Keyword} {condition : Expr} (hcondition : condition.Spellable)
    (hbody : ∀ stmt ∈ body.statements, stmt.Derives)
    (hspelled : Spelled (.keyword word :: condition.kinds 0 ++ blockKinds body) ts rest) :
    ∃ branch', Guarded word (Braced Statement) branch' ts rest ∧
      (condition.grouped 0).same branch'.condition = true ∧ sameBlock (groupedBlock body) branch'.body = true := by
  simp only [cons_append, spelled_append_iff, spelled_cons_iff] at hspelled
  obtain ⟨loc, _, hword, _, hguard, hblock⟩ := hspelled
  obtain ⟨condition', hcondition', hsame⟩ := hcondition.derives false (Nat.zero_le _) (Nat.le_refl 1) hguard
  obtain ⟨body', hbody', hsame'⟩ := braced_of_spelled hbody hblock
  exact ⟨⟨loc, condition', body'⟩, .mk hword hcondition' hbody', hsame, hsame'⟩

theorem elifs_of_spelled {branches : List (Branch Expr Stmt)}
    (hconditions : ∀ branch ∈ branches, branch.condition.Spellable)
    (hbodies : ∀ branch ∈ branches, ∀ stmt ∈ branch.body.statements, stmt.Derives)
    (hspelled : Spelled (branchesKinds .elifBranch branches) ts rest) :
    ∃ branches', Many (Guarded .elifBranch (Braced Statement)) branches' ts rest ∧
      sameBranches (groupedBranches branches) branches' = true := by
  induction branches generalizing ts with
  | nil =>
    rw [spelled_nil_iff.1 hspelled]
    exact ⟨[], .nil, by rw [groupedBranches, sameBranches]⟩
  | cons branch branches ih =>
    obtain ⟨branchLoc, condition, body⟩ := branch
    rw [branchesKinds, spelled_append_iff] at hspelled
    obtain ⟨t, hfirst, hothers⟩ := hspelled
    obtain ⟨branch', hbranch', hsame, hsame'⟩ := guarded_of_spelled (hconditions _ mem_cons_self)
      (hbodies _ mem_cons_self) hfirst
    obtain ⟨branches', hbranches', hsame''⟩ := ih (fun b hb => hconditions b (mem_cons_of_mem _ hb))
      (fun b hb => hbodies b (mem_cons_of_mem _ hb)) hothers
    refine ⟨branch' :: branches', .cons hbranch' hbranches', ?_⟩
    rw [groupedBranches, sameBranches, hsame, hsame', hsame'']
    rfl

theorem otherwise_of_spelled {otherwise : Option (Block Stmt)}
    (h : ∀ body ∈ otherwise, ∀ stmt ∈ body.statements, stmt.Derives)
    (hspelled : Spelled (elseKinds otherwise) ts rest) :
    ∃ otherwise', Otherwise (Braced Statement) otherwise' ts rest ∧
      sameBlock? (groupedElse otherwise) otherwise' = true := by
  cases otherwise with
  | none =>
    rw [spelled_nil_iff.1 hspelled]
    exact ⟨none, .none, by rw [groupedElse, sameBlock?]⟩
  | some body =>
    simp only [elseKinds, spelled_cons_iff] at hspelled
    obtain ⟨_, _, hword, hbody⟩ := hspelled
    obtain ⟨body', hbody', hsame⟩ := braced_of_spelled (h body rfl) hbody
    exact ⟨some body', .some hword hbody', by rw [groupedElse, sameBlock?, hsame]⟩

/-- The tokens of a statement derive it with the parentheses that were added. -/
theorem Stmt.Spellable.derives {stmt : Stmt} (h : stmt.Spellable) : stmt.Derives := by
  induction h with
  | block _ ih =>
    intro ts rest hspelled
    obtain ⟨body', hbody', hsame⟩ := braced_of_spelled ih hspelled
    exact ⟨_, .block hbody', by rw [Stmt.grouped, Stmt.same, hsame]⟩
  | letBinding _ htype hvalue =>
    intro ts rest hspelled
    simp only [Stmt.kinds, cons_append, append_assoc, spelled_append_iff, spelled_cons_iff,
      spelled_nil_iff] at hspelled
    obtain ⟨loc, _, hword, _, _, hname, _, _, hcolon, _, hwritten, _, _, hassign, _, hexpr, _, _, hend, rfl⟩ := hspelled
    obtain ⟨type', htype', hsame⟩ := htype.derives hwritten
    obtain ⟨value', hvalue', hsame'⟩ := hvalue.derives true (Nat.zero_le _) (Nat.le_refl 1) hexpr
    exact ⟨_, .letBinding hword hname hcolon htype' hassign hvalue' hend,
      by simp [Stmt.grouped, Stmt.same, hsame, hsame']⟩
  | assign _ _ hvalue =>
    intro ts rest hspelled
    simp only [Stmt.kinds, cons_append, append_assoc, spelled_append_iff, spelled_cons_iff,
      spelled_nil_iff] at hspelled
    obtain ⟨_, hchain, _, _, hassign, _, hexpr, _, _, hend, rfl⟩ := hspelled
    obtain ⟨loc, _, htarget, hfields⟩ := names_of_spelled hchain
    obtain ⟨value', hvalue', hsame⟩ := hvalue.derives true (Nat.zero_le _) (Nat.le_refl 1) hexpr
    exact ⟨_, .assign htarget hfields hassign hvalue' hend, by simp [Stmt.grouped, Stmt.same, hsame]⟩
  | ifChain hne hconditions _ _ ihbranches ihelse =>
    intro ts rest hspelled
    obtain ⟨⟨branchLoc, condition, body⟩, others, rfl⟩ := exists_cons_of_ne_nil hne
    rw [Stmt.kinds, branchesKinds, append_assoc, spelled_append_iff] at hspelled
    obtain ⟨_, hfirst, hspelled⟩ := hspelled
    rw [spelled_append_iff] at hspelled
    obtain ⟨_, hothers, hotherwise⟩ := hspelled
    obtain ⟨first', hfirst', hsame₁, hsame₂⟩ := guarded_of_spelled (hconditions _ mem_cons_self)
      (ihbranches _ mem_cons_self) hfirst
    obtain ⟨others', hothers', hsame₃⟩ := elifs_of_spelled (fun b hb => hconditions b (mem_cons_of_mem _ hb))
      (fun b hb => ihbranches b (mem_cons_of_mem _ hb)) hothers
    obtain ⟨otherwise', hotherwise', hsame₄⟩ := otherwise_of_spelled ihelse hotherwise
    refine ⟨_, .ifChain hfirst' hothers' hotherwise', ?_⟩
    rw [Stmt.grouped, Stmt.same, groupedBranches, sameBranches, hsame₁, hsame₂, hsame₃, hsame₄]
    rfl
  | whileLoop hcondition _ ih =>
    intro ts rest hspelled
    simp only [Stmt.kinds, cons_append, spelled_append_iff, spelled_cons_iff] at hspelled
    obtain ⟨_, _, hword, _, hexpr, hblock⟩ := hspelled
    obtain ⟨condition', hcondition', hsame⟩ := hcondition.derives false (Nat.zero_le _) (Nat.le_refl 1) hexpr
    obtain ⟨body', hbody', hsame'⟩ := braced_of_spelled ih hblock
    exact ⟨_, .whileLoop hword hcondition' hbody', by simp [Stmt.grouped, Stmt.same, hsame, hsame']⟩
  | @returnValue _ value hvalue =>
    intro ts rest hspelled
    cases value with
    | none =>
      simp only [Stmt.kinds, spelled_cons_iff, spelled_nil_iff] at hspelled
      obtain ⟨_, _, hword, _, _, hend, rfl⟩ := hspelled
      exact ⟨_, .returnNothing hword hend, by simp [Stmt.grouped, Stmt.same, sameExpr?]⟩
    | some value =>
      simp only [Stmt.kinds, cons_append, spelled_append_iff, spelled_cons_iff, spelled_nil_iff] at hspelled
      obtain ⟨_, _, hword, _, hexpr, _, _, hend, rfl⟩ := hspelled
      obtain ⟨value', hvalue', hsame⟩ := (hvalue value rfl).derives true (Nat.zero_le _) (Nat.le_refl 1) hexpr
      exact ⟨_, .returnValue hword hvalue' hend, by simp [Stmt.grouped, Stmt.same, sameExpr?, hsame]⟩
  | breakLoop =>
    intro ts rest hspelled
    simp only [Stmt.kinds, spelled_cons_iff, spelled_nil_iff] at hspelled
    obtain ⟨_, _, hword, _, _, hend, rfl⟩ := hspelled
    exact ⟨_, .breakLoop hword hend, by simp [Stmt.grouped, Stmt.same]⟩
  | continueLoop =>
    intro ts rest hspelled
    simp only [Stmt.kinds, spelled_cons_iff, spelled_nil_iff] at hspelled
    obtain ⟨_, _, hword, _, _, hend, rfl⟩ := hspelled
    exact ⟨_, .continueLoop hword hend, by simp [Stmt.grouped, Stmt.same]⟩
  | expression hvalue =>
    intro ts rest hspelled
    simp only [Stmt.kinds, spelled_append_iff, spelled_cons_iff, spelled_nil_iff] at hspelled
    obtain ⟨_, hexpr, _, _, hend, rfl⟩ := hspelled
    obtain ⟨value', hvalue', hsame⟩ := hvalue.derives true (Nat.zero_le _) (Nat.le_refl 1) hexpr
    exact ⟨_, .expression hvalue' hend, by simp [Stmt.grouped, Stmt.same, hsame]⟩

end Smpl
