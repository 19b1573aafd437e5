import Smpl.Proofs.Grammar.Statement.Soundness

namespace Smpl

namespace Grammar

variable {stmt : Stmt} {ts rest : Tokens}

/-- Whether another branch of a conditional stands next. -/
def continuesIf : Tokens → Bool
  | ⟨.keyword .elifBranch, _, _⟩ :: _ | ⟨.keyword .elseBranch, _, _⟩ :: _ => true
  | _ => false

theorem Statement.not_continuesIf (h : Statement stmt ts rest) : continuesIf ts = false := by
  obtain ⟨⟨kind, lexeme, loc⟩, t, rfl, hkind⟩ := h.starts
  unfold continuesIf
  split
  · next heq => cases heq; cases hkind
  · next heq => cases heq; cases hkind
  · rfl

theorem Statement.not_startsWith_rightBrace (h : Statement stmt ts rest) : Parse.startsWith .rightBrace ts = false := by
  rw [Bool.eq_false_iff]
  intro hstarts
  obtain ⟨token, t, rfl, hkind⟩ := h.starts
  obtain ⟨lexeme, loc, t', heq⟩ := Parse.startsWith_eq_true_iff.1 hstarts
  cases heq
  cases hkind

end Grammar

namespace Parse

open Grammar

variable {ts t rest : Tokens} {value : Expr} {loc : Location} {target : String} {fields : List String} {stmt : Stmt}

/-- A block that opens with its brace, and that the parser comes to. -/
def Opened : Rule (Block Stmt) :=
  fun body ts rest => (∃ loc t, Takes (.symbol .leftBrace) loc ts t) ∧ Routine.block.Comes true body ts rest

theorem branch_comes {condition : Expr} {body : Block Stmt} (hcondition : Expression false 1 condition ts t)
    (hbody : Opened body t rest) : (Routine.branch loc).Comes true ⟨loc, condition, body⟩ ts rest := by
  obtain ⟨⟨_, _, hopen⟩, hrun⟩ := hbody
  exact .call (condition_comes (expr_comes hcondition (.of_leftBrace hopen))) (.call hrun .result)

/-- All further branches are taken, up to where no such word follows. -/
theorem elifBranches_comes {branches : List (Branch Expr Stmt)}
    (h : Many (Guarded .elifBranch Opened) branches ts rest)
    (hstop : ∀ lexeme loc t, rest ≠ ⟨.keyword .elifBranch, lexeme, loc⟩ :: t) :
    (Routine.gather .elifBranches).Comes true branches ts rest := by
  induction h with
  | nil =>
    refine gather_done (.look ?_)
    split
    · exact absurd rfl (hstop _ _ _)
    · exact .result
  | cons hfirst _ ih =>
    cases hfirst with
    | mk hword hcondition hbody =>
      cases hword
      exact gather_again (.look (.advance (.call (branch_comes hcondition hbody) .result))) (ih hstop)

theorem elseBlock_comes {body : Option (Block Stmt)} (h : Otherwise Opened body ts rest)
    (hstop : ∀ lexeme loc t, rest ≠ ⟨.keyword .elseBranch, lexeme, loc⟩ :: t) :
    Routine.elseBlock.Comes true body ts rest := by
  refine .look ?_
  cases h with
  | none =>
    split
    · exact absurd rfl (hstop _ _ _)
    · exact .result
  | some hword hbody =>
    cases hword
    exact .advance (.call hbody.2 .result)

/-- What may start an expression starts no other statement. -/
theorem statement_of_opensExpression {token : Token} (h : opensExpression token.kind = true)
    (hrun : Routine.expressionOrAssign.Comes true stmt (token :: ts) rest) :
    Routine.statement.Comes true stmt (token :: ts) rest := by
  obtain ⟨kind, lexeme, loc⟩ := token
  refine .look ?_
  dsimp only
  split
  case h_8 => exact .last hrun
  all_goals cases h

/-- A name with fields below it is an expression, and one that can be assigned to. -/
theorem assignTarget?_complete (htarget : Takes (.identifier target) loc ts t)
    (hfields : Names .dot fields t rest) :
    ∃ e, Expression true 1 e ts rest ∧ assignTarget? e = some (target, fields) := by
  cases hfields with
  | nil => exact ⟨_, (Expression.binding (.mk htarget .nil)).lower (by decide) (Nat.le_refl 7), rfl⟩
  | cons hdot hname hnames =>
    exact ⟨_, (Expression.field htarget hdot hname hnames).lower (by decide) (Nat.le_refl 7), rfl⟩

/-- A name with fields before an assignment is read as its target. -/
theorem assign_comes {loc₁ loc₂ : Location} {t₁ t₂ t₃ t₄ : Tokens} (htarget : Takes (.identifier target) loc ts t₁)
    (hfields : Names .dot fields t₁ t₂) (hassign : Takes (.symbol .assign) loc₁ t₂ t₃)
    (hvalue : Expression true 1 value t₃ t₄) (hend : Takes (.symbol .semicolon) loc₂ t₄ rest) :
    Routine.statement.Comes true (.assign loc target fields value) ts rest := by
  obtain ⟨e, he, hnames⟩ := assignTarget?_complete htarget hfields
  have hleft := expr_comes he (.of_closes (startsWith_of_takes hassign) (by decide))
  have hright := expr_comes hvalue (.of_closes (startsWith_of_takes hend) (by decide))
  cases hassign
  cases htarget
  refine statement_of_opensExpression rfl (.look (.call hleft (.look ?_)))
  dsimp only
  rw [hnames]
  exact .advance (.call hright (.call (symbol_comes hend) .result))

theorem expression_comes (hvalue : Expression true 1 value ts t) (hend : Takes (.symbol .semicolon) loc t rest) :
    Routine.statement.Comes true (.expression value.loc value) ts rest := by
  have hexpr := expr_comes hvalue (.of_closes (startsWith_of_takes hend) (by decide))
  obtain ⟨token, t, rfl, hkind, hloc⟩ := hvalue.starts
  rw [hloc]
  refine statement_of_opensExpression hkind (.look (.call hexpr (.look ?_)))
  cases hend
  exact .call (symbol_comes .mk) .result

/-- What is a statement by the rules is read as that statement, if its blocks are. -/
theorem statement_comes (h : Statement stmt ts rest) (hstop : continuesIf rest = false)
    (hblocks : ∀ body ∈ stmt.blocks, ∀ ts rest, Braced Statement body ts rest → Opened body ts rest) :
    Routine.statement.Comes true stmt ts rest := by
  cases h with
  | letBinding hword hname hcolon htype hassign hvalue hend =>
    cases hword
    exact .look (.advance (.call (identifier_comes hname) (.call (symbol_comes hcolon)
      (.call (type_comes htype (.of_startsWith (startsWith_of_takes hassign) (by decide)))
      (.call (symbol_comes hassign) (.call (expr_comes hvalue (.of_closes (startsWith_of_takes hend) (by decide)))
      (.call (symbol_comes hend) .result)))))))
  | ifChain hfirst hothers hotherwise =>
    obtain ⟨hfirst, hothers, hotherwise⟩ := Statement.ifChain_of_blocks hfirst hothers hotherwise hblocks
    have helse := elseBlock_comes hotherwise (by rintro _ _ _ rfl; cases hstop)
    have helifs := elifBranches_comes hothers (by
      rintro lexeme loc t rfl
      cases hotherwise with
      | none => cases hstop
      | some helse => cases helse)
    cases hfirst with
    | mk hword hcondition hbody =>
      cases hword
      exact .look (.advance (.call (branch_comes hcondition hbody) (.call helifs (.call helse .result))))
  | whileLoop hword hcondition hbody =>
    obtain ⟨⟨_, _, hopen⟩, hrun⟩ := hblocks _ List.mem_cons_self _ _ hbody
    cases hword
    exact .look (.advance (.call (condition_comes (expr_comes hcondition (.of_leftBrace hopen))) (.call hrun .result)))
  | returnNothing hword hend =>
    cases hword
    exact .look (.advance (.call (.look (.yes (startsWith_of_takes hend) .result)) (.call (symbol_comes hend) .result)))
  | returnValue hword hvalue hend =>
    cases hword
    exact .look (.advance (.call (.look (.no (not_startsWith_of_expression (by decide) hvalue)
      (.call (expr_comes hvalue (.of_closes (startsWith_of_takes hend) (by decide))) .result)))
      (.call (symbol_comes hend) .result)))
  | breakLoop hword hend | continueLoop hword hend =>
    cases hword
    exact .look (.advance (.call (symbol_comes hend) .result))
  | block hbody =>
    obtain ⟨⟨_, _, hopen⟩, hrun⟩ := hblocks _ List.mem_cons_self _ _ hbody
    cases hopen
    exact .look (.call hrun .result)
  | assign htarget hfields hassign hvalue hend => exact assign_comes htarget hfields hassign hvalue hend
  | expression hvalue hend => exact expression_comes hvalue hend

/-- A statement that the parser comes to, unless another branch of a conditional follows. -/
def Settled : Rule Stmt :=
  fun stmt ts rest =>
    Statement stmt ts rest ∧ (continuesIf rest = false → Routine.statement.Comes true stmt ts rest)

/-- All statements up to the closing brace are taken. -/
theorem statements_comes {stmts : List Stmt} (h : Many Settled stmts ts rest)
    (hclose : startsWith .rightBrace rest = true) : (Routine.gather .statements).Comes true stmts ts rest := by
  induction h with
  | nil => exact gather_done (.look (.yes (by simp [hclose]) .result))
  | @cons _ _ _ t _ hfirst hothers ih =>
    have hstop : continuesIf t = false := by
      cases hothers with
      | nil =>
        obtain ⟨_, _, _, rfl⟩ := startsWith_eq_true_iff.1 hclose
        rfl
      | cons hsecond => exact hsecond.1.not_continuesIf
    obtain ⟨hfirst, hrun⟩ := hfirst
    have hbrace := hfirst.not_startsWith_rightBrace
    obtain ⟨token, _, rfl, _⟩ := hfirst.starts
    exact gather_again (.look (.no (by simp [hbrace]) (.call (hrun hstop) .result))) (ih hclose)

theorem Opened.of_braced {body : Block Stmt} (h : Braced Settled body ts rest) : Opened body ts rest := by
  cases h with
  | mk hopen hbody hclose =>
    exact ⟨⟨_, _, hopen⟩, .call (symbol_comes hopen) (.call (statements_comes hbody (startsWith_of_takes hclose))
      (.call (symbol_comes hclose) .result))⟩

theorem Settled.of_statement (h : Statement stmt ts rest) : Settled stmt ts rest :=
  h.induct fun h hblocks => ⟨h, fun hstop => statement_comes h hstop fun body hbody _ _ hbraced =>
    .of_braced (hblocks body hbody _ _ hbraced)⟩

/-- What is a block by the rules is read as that block. -/
theorem block_comes {body : Block Stmt} (h : Braced Statement body ts rest) : Opened body ts rest := by
  cases h with
  | mk hopen hbody hclose => exact .of_braced (.mk hopen (hbody.of_mem fun _ _ _ _ => .of_statement) hclose)

end Parse

end Smpl
