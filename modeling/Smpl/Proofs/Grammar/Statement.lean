import Smpl.Proofs.Grammar.Expression.Completeness
import Smpl.Proofs.Syntax.Induction

namespace Smpl.Grammar

/-- Statements in braces. -/
inductive Braced (statement : Rule Stmt) : Rule (Block Stmt)
  | mk {body : List Stmt} {loc loc₁ : Location} {ts t₁ t₂ rest : Tokens} :
    Takes (.symbol .leftBrace) loc ts t₁ → Many statement body t₁ t₂ → Takes (.symbol .rightBrace) loc₁ t₂ rest →
    Braced statement ⟨loc, body⟩ ts rest

/-- A word, a condition and the block that it guards. No struct initializer stands bare in the
    condition. -/
inductive Guarded (word : Keyword) (block : Rule (Block Stmt)) : Rule (Branch Expr Stmt)
  | mk {condition : Expr} {body : Block Stmt} {loc : Location} {ts t₁ t₂ rest : Tokens} :
    Takes (.keyword word) loc ts t₁ → Expression false 1 condition t₁ t₂ → block body t₂ rest →
    Guarded word block ⟨loc, condition, body⟩ ts rest

/-- The last block of a conditional, or nothing. -/
inductive Otherwise (block : Rule (Block Stmt)) : Rule (Option (Block Stmt))
  | none {rest : Tokens} : Otherwise block none rest rest
  | some {body : Block Stmt} {loc : Location} {ts t rest : Tokens} :
    Takes (.keyword .elseBranch) loc ts t → block body t rest → Otherwise block (some body) ts rest

/-- A statement. Only a name, with fields below it or not, can be assigned to. -/
inductive Statement : Rule Stmt
  | letBinding {name : String} {type : TypeExpr} {value : Expr} {loc loc₁ loc₂ loc₃ loc₄ : Location}
      {ts t₁ t₂ t₃ t₄ t₅ t₆ rest : Tokens} :
    Takes (.keyword .letBinding) loc ts t₁ → Takes (.identifier name) loc₁ t₁ t₂ → Takes (.symbol .colon) loc₂ t₂ t₃ →
    Written type t₃ t₄ → Takes (.symbol .assign) loc₃ t₄ t₅ → Expression true 1 value t₅ t₆ →
    Takes (.symbol .semicolon) loc₄ t₆ rest → Statement (.letBinding loc name type value) ts rest
  | ifChain {first : Branch Expr Stmt} {others : List (Branch Expr Stmt)} {otherwise : Option (Block Stmt)}
      {ts t₁ t₂ rest : Tokens} :
    Guarded .ifBranch (Braced Statement) first ts t₁ → Many (Guarded .elifBranch (Braced Statement)) others t₁ t₂ →
    Otherwise (Braced Statement) otherwise t₂ rest →
    Statement (.ifChain first.loc (first :: others) otherwise) ts rest
  | whileLoop {condition : Expr} {body : Block Stmt} {loc : Location} {ts t₁ t₂ rest : Tokens} :
    Takes (.keyword .whileLoop) loc ts t₁ → Expression false 1 condition t₁ t₂ → Braced Statement body t₂ rest →
    Statement (.whileLoop loc condition body) ts rest
  | returnNothing {loc loc₁ : Location} {ts t₁ rest : Tokens} :
    Takes (.keyword .returnValue) loc ts t₁ → Takes (.symbol .semicolon) loc₁ t₁ rest →
    Statement (.returnValue loc none) ts rest
  | returnValue {value : Expr} {loc loc₁ : Location} {ts t₁ t₂ rest : Tokens} :
    Takes (.keyword .returnValue) loc ts t₁ → Expression true 1 value t₁ t₂ →
    Takes (.symbol .semicolon) loc₁ t₂ rest → Statement (.returnValue loc (some value)) ts rest
  | breakLoop {loc loc₁ : Location} {ts t₁ rest : Tokens} :
    Takes (.keyword .breakLoop) loc ts t₁ → Takes (.symbol .semicolon) loc₁ t₁ rest →
    Statement (.breakLoop loc) ts rest
  | continueLoop {loc loc₁ : Location} {ts t₁ rest : Tokens} :
    Takes (.keyword .continueLoop) loc ts t₁ → Takes (.symbol .semicolon) loc₁ t₁ rest →
    Statement (.continueLoop loc) ts rest
  | block {body : Block Stmt} {ts rest : Tokens} : Braced Statement body ts rest → Statement (.block body) ts rest
  | assign {target : String} {fields : List String} {value : Expr} {loc loc₁ loc₂ : Location}
      {ts t₁ t₂ t₃ t₄ rest : Tokens} :
    Takes (.identifier target) loc ts t₁ → Names .dot fields t₁ t₂ → Takes (.symbol .assign) loc₁ t₂ t₃ →
    Expression true 1 value t₃ t₄ → Takes (.symbol .semicolon) loc₂ t₄ rest →
    Statement (.assign loc target fields value) ts rest
  | expression {value : Expr} {loc : Location} {ts t rest : Tokens} :
    Expression true 1 value ts t → Takes (.symbol .semicolon) loc t rest →
    Statement (.expression value.loc value) ts rest

/-- Induction over a statement: what is read for the blocks in it is read for statements with the property
    already. -/
theorem Statement.induct {motive : Rule Stmt}
    (step : ∀ {stmt ts rest}, Statement stmt ts rest → (∀ body ∈ stmt.blocks, ∀ ts rest,
      Braced Statement body ts rest → Braced motive body ts rest) → motive stmt ts rest)
    {stmt : Stmt} {ts rest : Tokens} (h : Statement stmt ts rest) : motive stmt ts rest := by
  have hmany (stmts : List Stmt) : ∀ ts rest, Many Statement stmts ts rest → Many motive stmts ts rest := by
    induction stmts using Stmt.inductList with
    | nil =>
      intro ts rest h
      cases h
      exact .nil
    | cons stmt others hblocks ih =>
      intro ts rest h
      cases h with
      | cons hstmt hothers =>
        refine .cons (step hstmt fun body hbody ts rest h => ?_) (ih _ _ hothers)
        cases h with
        | mk hopen hstmts hclose => exact .mk hopen (hblocks _ hbody _ _ hstmts) hclose
  cases hmany [stmt] ts rest (.cons h .nil) with
  | cons hstmt hnone =>
    cases hnone
    exact hstmt

variable {ts rest : Tokens}

theorem Guarded.of_body {word : Keyword} {block rule : Rule (Block Stmt)} {branch : Branch Expr Stmt}
    (h : Guarded word block branch ts rest)
    (hblock : ∀ ts rest, block branch.body ts rest → rule branch.body ts rest) : Guarded word rule branch ts rest := by
  cases h with
  | mk hword hcondition hbody => exact .mk hword hcondition (hblock _ _ hbody)

/-- What is read for a conditional, with its blocks read by another rule. -/
theorem Statement.ifChain_of_blocks {rule : Rule (Block Stmt)} {first : Branch Expr Stmt}
    {others : List (Branch Expr Stmt)} {otherwise : Option (Block Stmt)} {loc : Location} {t₁ t₂ : Tokens}
    (hfirst : Guarded .ifBranch (Braced Statement) first ts t₁)
    (hothers : Many (Guarded .elifBranch (Braced Statement)) others t₁ t₂)
    (hotherwise : Otherwise (Braced Statement) otherwise t₂ rest)
    (hblocks : ∀ body ∈ (Stmt.ifChain loc (first :: others) otherwise).blocks, ∀ ts rest,
      Braced Statement body ts rest → rule body ts rest) :
    Guarded .ifBranch rule first ts t₁ ∧ Many (Guarded .elifBranch rule) others t₁ t₂ ∧
      Otherwise rule otherwise t₂ rest := by
  obtain ⟨hbranches, hlast⟩ := List.forall_mem_append.1 hblocks
  obtain ⟨hbody, hbodies⟩ := List.forall_mem_cons.1 hbranches
  refine ⟨hfirst.of_body hbody, hothers.of_mem fun branch hbranch _ _ h => h.of_body ?_, ?_⟩
  · exact hbodies _ (List.mem_map_of_mem hbranch)
  · cases hotherwise with
    | none => exact .none
    | some hword hbody => exact .some hword (hlast _ List.mem_cons_self _ _ hbody)

/-- The kinds of tokens that a statement may start with. -/
def opensStatement (kind : TokenKind) : Bool :=
  opensExpression kind || kind = .symbol .leftBrace || kind = .keyword .letBinding || kind = .keyword .ifBranch ||
    kind = .keyword .whileLoop || kind = .keyword .returnValue || kind = .keyword .breakLoop ||
    kind = .keyword .continueLoop

theorem Takes.opensStatement {kind : TokenKind} {loc : Location} (h : Takes kind loc ts rest)
    (hkind : opensStatement kind = true) : ∃ token t, ts = token :: t ∧ opensStatement token.kind = true := by
  cases h
  exact ⟨_, _, rfl, hkind⟩

/-- A statement starts with a token that may start one. -/
theorem Statement.starts {stmt : Stmt} (h : Statement stmt ts rest) :
    ∃ token t, ts = token :: t ∧ opensStatement token.kind = true := by
  cases h with
  | letBinding htakes | whileLoop htakes | returnNothing htakes | returnValue htakes | breakLoop htakes
  | continueLoop htakes | assign htakes => exact htakes.opensStatement rfl
  | ifChain hfirst =>
    cases hfirst with
    | mk hword => exact hword.opensStatement rfl
  | block hbody =>
    cases hbody with
    | mk hopen => exact hopen.opensStatement rfl
  | expression hvalue =>
    obtain ⟨token, t, rfl, hkind, _⟩ := hvalue.starts
    exact ⟨token, t, rfl, by simp [opensStatement, hkind]⟩

end Smpl.Grammar
