import Smpl.Proofs.Syntax.Induction
import Smpl.Proofs.Typing.Rules

namespace Smpl

open List

theorem blockReturns_eq (body : Block Stmt) : blockReturns body = anyReturns body.statements := by
  rw [blockReturns]

theorem branchesReturn_iff {branches : List (Branch Expr Stmt)} :
    branchesReturn branches = true ↔ ∀ branch ∈ branches, blockReturns branch.body = true := by
  induction branches with
  | nil => simp [branchesReturn]
  | cons branch branches ih => rw [branchesReturn, Bool.and_eq_true, ih, forall_mem_cons]

theorem anyReturns_cons_iff {stmt : Stmt} {rest : List Stmt} :
    anyReturns (stmt :: rest) = true ↔ stmt.returns = true ∨ anyReturns rest = true := by
  rw [anyReturns, Bool.or_eq_true]

/-- The return analysis finds exactly the statements with a return on every path. -/
theorem anyReturns_iff (stmts : List Stmt) : anyReturns stmts = true ↔ AlwaysReturn stmts := by
  induction stmts using Stmt.inductList with
  | nil => exact ⟨fun h => absurd h Bool.false_ne_true, by rintro ⟨⟩⟩
  | cons stmt rest hblocks hrest =>
    have hblock : ∀ body ∈ stmt.blocks, blockReturns body = true ↔ AlwaysReturn body.statements :=
      fun body hbody => by rw [blockReturns_eq, hblocks body hbody]
    rw [anyReturns_cons_iff, hrest]
    constructor
    · rintro (hstmt | hlater)
      · cases stmt with
        | block body => exact .block ((hblock body mem_cons_self).1 hstmt)
        | ifChain loc branches otherwise =>
          rw [Stmt.returns, Bool.and_eq_true, branchesReturn_iff] at hstmt
          cases otherwise with
          | none => cases hstmt.2
          | some body =>
            refine .ifChain (fun branch hbranch => ?_) ((hblock body (by simp [Stmt.blocks])).1 hstmt.2)
            exact (hblock _ (mem_append_left _ (mem_map_of_mem hbranch))).1 (hstmt.1 branch hbranch)
        | returnValue => exact .here
        | letBinding | assign | whileLoop | breakLoop | continueLoop | expression | unknown => cases hstmt
      · exact .later hlater
    · intro h
      cases h with
      | here => exact .inl rfl
      | block hinner => exact .inl ((hblock _ mem_cons_self).2 hinner)
      | ifChain hinner hlast =>
        rw [Stmt.returns, Bool.and_eq_true, branchesReturn_iff]
        refine .inl ⟨fun branch hbranch => ?_, (hblock _ (by simp [Stmt.blocks])).2 hlast⟩
        exact (hblock _ (mem_append_left _ (mem_map_of_mem hbranch))).2 (hinner branch hbranch)
      | later hlater => exact .inr hlater

end Smpl
