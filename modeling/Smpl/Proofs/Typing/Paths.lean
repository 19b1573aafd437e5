import Smpl.Proofs.Checker.Program
import Smpl.Proofs.Typing.Return

namespace Smpl

variable {scope : Scope} {stmt : Stmt}

/-- How a path leaves statements: past the last one, or by a jump out of them. -/
inductive Leaves
  | atEnd
  | byReturn
  | byBreak
  | byContinue
deriving DecidableEq

mutual

/-- The finite paths through a statement, by the turns of the conditions on them and how they leave it. -/
inductive Stmt.Runs : Stmt → List Bool → Leaves → Prop
  | block {body : Block Stmt} {turns : List Bool} {leaves : Leaves} :
    StmtsRun body.statements turns leaves → Stmt.Runs (.block body) turns leaves
  | letBinding {loc : Location} {name : String} {type : TypeExpr} {value : Expr} :
    Stmt.Runs (.letBinding loc name type value) [] .atEnd
  | assign {loc : Location} {target : String} {fields : List String} {value : Expr} :
    Stmt.Runs (.assign loc target fields value) [] .atEnd
  | expression {loc : Location} {value : Expr} : Stmt.Runs (.expression loc value) [] .atEnd
  | returnValue {loc : Location} {value : Option Expr} : Stmt.Runs (.returnValue loc value) [] .byReturn
  | breakLoop {loc : Location} : Stmt.Runs (.breakLoop loc) [] .byBreak
  | continueLoop {loc : Location} : Stmt.Runs (.continueLoop loc) [] .byContinue
  | taken {loc : Location} {branch : Branch Expr Stmt} {branches : List (Branch Expr Stmt)}
      {otherwise : Option (Block Stmt)} {turns : List Bool} {leaves : Leaves} :
    StmtsRun branch.body.statements turns leaves →
    Stmt.Runs (.ifChain loc (branch :: branches) otherwise) (true :: turns) leaves
  | passed {loc : Location} {branch : Branch Expr Stmt} {branches : List (Branch Expr Stmt)}
      {otherwise : Option (Block Stmt)} {turns : List Bool} {leaves : Leaves} :
    Stmt.Runs (.ifChain loc branches otherwise) turns leaves →
    Stmt.Runs (.ifChain loc (branch :: branches) otherwise) (false :: turns) leaves
  | otherwise {loc : Location} {body : Block Stmt} {turns : List Bool} {leaves : Leaves} :
    StmtsRun body.statements turns leaves → Stmt.Runs (.ifChain loc [] (some body)) turns leaves
  | noBranch {loc : Location} : Stmt.Runs (.ifChain loc [] none) [] .atEnd
  | done {loc : Location} {condition : Expr} {body : Block Stmt} :
    Stmt.Runs (.whileLoop loc condition body) [false] .atEnd
  | again {loc : Location} {condition : Expr} {body : Block Stmt} {turns later : List Bool} {round leaves : Leaves} :
    StmtsRun body.statements turns round → round = .atEnd ∨ round = .byContinue →
    Stmt.Runs (.whileLoop loc condition body) later leaves →
    Stmt.Runs (.whileLoop loc condition body) (true :: turns ++ later) leaves
  | broken {loc : Location} {condition : Expr} {body : Block Stmt} {turns : List Bool} :
    StmtsRun body.statements turns .byBreak → Stmt.Runs (.whileLoop loc condition body) (true :: turns) .atEnd
  | returned {loc : Location} {condition : Expr} {body : Block Stmt} {turns : List Bool} :
    StmtsRun body.statements turns .byReturn → Stmt.Runs (.whileLoop loc condition body) (true :: turns) .byReturn

/-- The finite paths through the statements of a block. -/
inductive StmtsRun : List Stmt → List Bool → Leaves → Prop
  | nil : StmtsRun [] [] .atEnd
  | next {stmt : Stmt} {rest : List Stmt} {turns later : List Bool} {leaves : Leaves} :
    Stmt.Runs stmt turns .atEnd → StmtsRun rest later leaves → StmtsRun (stmt :: rest) (turns ++ later) leaves
  | jump {stmt : Stmt} {rest : List Stmt} {turns : List Bool} {leaves : Leaves} :
    Stmt.Runs stmt turns leaves → leaves ≠ .atEnd → StmtsRun (stmt :: rest) turns leaves

end

/-- Some path runs through all the statements. -/
def Completes (stmts : List Stmt) : Prop := ∃ turns, StmtsRun stmts turns .atEnd

theorem completes_cons_iff {rest : List Stmt} :
    Completes (stmt :: rest) ↔ (∃ turns, stmt.Runs turns .atEnd) ∧ Completes rest := by
  constructor
  · rintro ⟨_, hruns⟩
    cases hruns with
    | next hfirst hrest => exact ⟨⟨_, hfirst⟩, _, hrest⟩
    | jump _ hleaves => exact absurd rfl hleaves
  · rintro ⟨⟨_, hfirst⟩, _, hrest⟩
    exact ⟨_, .next hfirst hrest⟩

theorem exists_block_runs_iff {body : Block Stmt} :
    (∃ turns, (Stmt.block body).Runs turns .atEnd) ↔ Completes body.statements := by
  constructor
  · rintro ⟨_, hruns⟩
    cases hruns with
    | block hbody => exact ⟨_, hbody⟩
  · rintro ⟨_, hbody⟩
    exact ⟨_, .block hbody⟩

/-- A chain of branches is passed through the block of one of them, or by its last block if all conditions fail. -/
theorem exists_ifChain_runs_iff {loc : Location} {branches : List (Branch Expr Stmt)}
    {otherwise : Option (Block Stmt)} :
    (∃ turns, (Stmt.ifChain loc branches otherwise).Runs turns .atEnd) ↔
      (∃ branch ∈ branches, Completes branch.body.statements) ∨ ∀ body ∈ otherwise, Completes body.statements := by
  induction branches with
  | nil =>
    constructor
    · rintro ⟨_, hruns⟩
      refine .inr fun body hbody => ?_
      cases hruns with
      | otherwise hlast =>
        obtain rfl := Option.some.inj hbody
        exact ⟨_, hlast⟩
      | noBranch => cases hbody
    · rintro (⟨_, hbranch, _⟩ | hlast)
      · cases hbranch
      · cases otherwise with
        | none => exact ⟨[], .noBranch⟩
        | some body =>
          obtain ⟨turns, hbody⟩ := hlast body rfl
          exact ⟨turns, .otherwise hbody⟩
  | cons branch branches ih =>
    rw [List.exists_mem_cons_iff, or_assoc, ← ih]
    constructor
    · rintro ⟨_, hruns⟩
      cases hruns with
      | taken hbody => exact .inl ⟨_, hbody⟩
      | passed hothers => exact .inr ⟨_, hothers⟩
    · rintro (⟨_, hbody⟩ | ⟨_, hothers⟩)
      · exact ⟨_, .taken hbody⟩
      · exact ⟨_, .passed hothers⟩

/-- No path runs through statements that always return. -/
theorem AlwaysReturn.not_completes {stmts : List Stmt} (h : AlwaysReturn stmts) : ¬Completes stmts := by
  induction h with
  | here =>
    rw [completes_cons_iff]
    rintro ⟨⟨_, hruns⟩, _⟩
    cases hruns
  | block _ ih =>
    rw [completes_cons_iff, exists_block_runs_iff]
    exact fun h => ih h.1
  | ifChain _ _ ihbranches ihlast =>
    rw [completes_cons_iff, exists_ifChain_runs_iff]
    rintro ⟨⟨branch, hbranch, hcompletes⟩ | hlast, _⟩
    · exact ihbranches branch hbranch hcompletes
    · exact ihlast (hlast _ rfl)
  | later _ ih =>
    rw [completes_cons_iff]
    exact fun h => ih h.2

/-- A statement that returns on every path never reaches its end. -/
theorem Stmt.not_runs_of_returns (h : stmt.returns = true) (turns : List Bool) : ¬stmt.Runs turns .atEnd := by
  intro hruns
  have halways : AlwaysReturn [stmt] := (anyReturns_iff _).1 (anyReturns_cons_iff.2 (.inl h))
  exact halways.not_completes (completes_cons_iff.2 ⟨⟨turns, hruns⟩, [], .nil⟩)

namespace Context

variable {ctx : Context}

/-- Checked statements of which each can be passed if it does not return. -/
theorem completes_of_forall {stmts : List Stmt} {outs : List TypedStmt}
    (hstmts : ∀ stmt ∈ stmts, ∀ scope out scope', ctx.ChecksStmt false scope stmt out scope' →
      ¬stmt.returns = true → ∃ turns, stmt.Runs turns .atEnd)
    (hchecked : ctx.stmts false scope stmts = .ok outs) (hreturns : ¬anyReturns stmts = true) : Completes stmts := by
  induction stmts generalizing scope outs with
  | nil => exact ⟨[], .nil⟩
  | cons stmt rest ih =>
    obtain ⟨hfirst, hothers⟩ := List.forall_mem_cons.1 hstmts
    obtain ⟨out, scope', others, hchecks, hrest, _⟩ := stmts_cons_eq_ok_iff.1 hchecked
    rw [anyReturns_cons_iff, not_or] at hreturns
    exact completes_cons_iff.2 ⟨hfirst scope out scope' hchecks hreturns.1, ih hothers hrest hreturns.2⟩

/-- A checked statement outside of loops that does not always return can be passed. Inside a loop this fails: a break
    is no return, and no path goes past it. -/
theorem exists_runs_of_checksStmt {scope' : Scope} {out : TypedStmt}
    (hchecks : ctx.ChecksStmt false scope stmt out scope') (hreturns : ¬stmt.returns = true) :
    ∃ turns, stmt.Runs turns .atEnd := by
  induction stmt using Stmt.induct generalizing scope scope' out with
  | block body ih =>
    cases hchecks with
    | block hbody =>
      rw [Stmt.returns, blockReturns_eq] at hreturns
      rw [exists_block_runs_iff]
      exact completes_of_forall (fun stmt hstmt _ _ _ => ih stmt hstmt) (block_eq_ok_iff.1 hbody).1 hreturns
  | ifChain loc branches otherwise ihbranches ihotherwise =>
    cases hchecks with
    | ifChain houts hlast =>
      rw [Stmt.returns, Bool.and_eq_true, not_and_or, branchesReturn_iff, not_forall₂] at hreturns
      rw [exists_ifChain_runs_iff]
      rcases hreturns with ⟨branch, hbranch, hreturns⟩ | hreturns
      · -- the conditions before this branch fail, and its own holds
        obtain ⟨_, _, hbody⟩ := exists_of_forall₂_of_mem houts hbranch
        rw [blockReturns_eq] at hreturns
        exact .inl ⟨branch, hbranch, completes_of_forall (fun stmt hstmt _ _ _ => ihbranches branch hbranch stmt hstmt)
          (block_eq_ok_iff.1 hbody.body).1 hreturns⟩
      · refine .inr fun body hbody => ?_
        obtain rfl : otherwise = some body := hbody
        cases hlast with
        | some hblock =>
          rw [otherwiseReturns, blockReturns_eq] at hreturns
          exact completes_of_forall (fun stmt hstmt _ _ _ => ihotherwise body rfl stmt hstmt)
            (block_eq_ok_iff.1 hblock).1 hreturns
  | whileLoop => exact ⟨[false], .done⟩
  | letBinding => exact ⟨[], .letBinding⟩
  | assign => exact ⟨[], .assign⟩
  | expression => exact ⟨[], .expression⟩
  | returnValue => exact absurd rfl hreturns
  | breakLoop | continueLoop =>
    cases hchecks
    all_goals exact absurd ‹false = true› Bool.false_ne_true
  | unknown => cases hchecks

/-- The return analysis is exact on a checked body. -/
theorem completes_iff_of_block {body : Block Stmt} {checked : Block TypedStmt}
    (hbody : ctx.block false scope body = .ok checked) :
    Completes body.statements ↔ ¬blockReturns body = true := by
  rw [blockReturns_eq]
  constructor
  · exact fun hcompletes hreturns => ((anyReturns_iff _).1 hreturns).not_completes hcompletes
  · exact completes_of_forall (fun _ _ _ _ _ => exists_runs_of_checksStmt) (block_eq_ok_iff.1 hbody).1

/-- The return analysis is exact. A statement that it takes to return is passed on no path. A body that is otherwise
    right is refused for a missing return just if its function has a result and some path runs off the end; if not, it
    is accepted. -/
theorem body_eq_missingReturn_iff_completes {loc : Location} {params : List Local} {body : Block Stmt} {scope : Scope}
    {checked : Block TypedStmt} (hparams : params.foldlM Scope.declare Scope.empty = .ok scope)
    (hbody : ctx.block false scope body = .ok checked) :
    (∀ stmt : Stmt, stmt.returns = true → ∀ turns, ¬stmt.Runs turns .atEnd) ∧
      (ctx.body loc params body = refuse (.missingReturn ctx.functionName ctx.result.text) loc ↔
        ctx.result ≠ .unit ∧ ∃ turns, StmtsRun body.statements turns .atEnd) ∧
      (ctx.body loc params body = .ok checked ↔
        (ctx.result ≠ .unit → ¬∃ turns, StmtsRun body.statements turns .atEnd)) := by
  refine ⟨fun stmt hreturns => Stmt.not_runs_of_returns hreturns, ?_⟩
  have hexact : (∃ turns, StmtsRun body.statements turns .atEnd) ↔ ¬blockReturns body = true :=
    completes_iff_of_block hbody
  have hrun : ctx.body loc params body =
      if ctx.result ≠ .unit ∧ ¬blockReturns body = true
      then refuse (.missingReturn ctx.functionName ctx.result.text) loc else .ok checked := by
    rw [Context.body, hparams, ok_bind, hbody, ok_bind]
    simp only [Bool.not_eq_true', Bool.not_eq_true]
    split <;> rfl
  have hdiffer : refuse (.missingReturn ctx.functionName ctx.result.text) loc ≠ .ok checked := by simp [refuse]
  rw [hrun, hexact]
  by_cases hmissing : ctx.result ≠ .unit ∧ ¬blockReturns body = true
  · rw [if_pos hmissing]
    exact ⟨iff_of_true rfl hmissing, iff_of_false hdiffer fun h => h hmissing.1 hmissing.2⟩
  · rw [if_neg hmissing]
    exact ⟨iff_of_false hdiffer.symm hmissing, iff_of_true rfl fun hresult hfalls => hmissing ⟨hresult, hfalls⟩⟩

/-- A loop that always returns is not enough: its condition may fail the first time. -/
theorem body_eq_missingReturn_of_loop :
    let loc : Location := ⟨"m", 1, 1⟩
    let ctx : Context := { (default : Context) with functionName := "f", result := .int }
    let body : Block Stmt := ⟨loc, [.whileLoop loc (.literal loc (.bool true))
      ⟨loc, [.returnValue loc (some (.literal loc (.integer 1)))]⟩]⟩
    (∃ checked, ctx.block false Scope.empty body = .ok checked) ∧
      ctx.body loc [] body = refuse (.missingReturn "f" "int") loc := by
  intro loc ctx body
  have hall : ((ctx.block false Scope.empty body).toOption.any fun _ => true) = true := by decide +kernel
  obtain ⟨checked, hchecked, _⟩ := exists_eq_ok_of_any hall
  have hexact := @body_eq_missingReturn_iff_completes ctx loc [] body Scope.empty checked rfl hchecked
  exact ⟨⟨checked, hchecked⟩, hexact.2.1.2 ⟨by decide, [false], .next .done .nil⟩⟩

end Context

end Smpl
