import Smpl.Proofs.Grammar.Statement

namespace Smpl.Parse

open Grammar

instance {rule : Rule Stmt} : Productive (Braced rule) :=
  ⟨_, [⟨.symbol .leftBrace, "", default⟩, ⟨.symbol .rightBrace, "", default⟩], fun _ => .mk .mk .nil .mk⟩

instance {rule : Rule (Block Stmt)} : Productive (Otherwise rule) := ⟨none, [], fun _ => .none⟩

instance : Productive Statement :=
  ⟨_, [⟨.keyword .breakLoop, "", default⟩, ⟨.symbol .semicolon, "", default⟩], fun _ => .breakLoop .mk .mk⟩

section

variable {block : Tokens → Reading (Block Stmt × Tokens)} {rule : Rule (Block Stmt)} [Productive rule]
  (hblock : ∀ ts, Tracks rule ts (block ts)) (budget : Nat)
include hblock

theorem branch_tracks (word : Keyword) (lexeme : String) (loc : Location) (ts : Tokens) :
    Tracks (fun branch ts rest => branch.loc = loc ∧ Guarded word rule branch ts rest)
      (⟨.keyword word, lexeme, loc⟩ :: ts)
      (branch block budget loc ts) := by
  refine .mono (.take ((expr_tracks budget false ts).bind fun _ _ => (hblock _).bind fun _ _ => .gives)) ?_
  rintro _ _ _ ⟨_, hword, _, _, hcondition, _, _, hbody, ⟨⟩⟩
  exact ⟨rfl, .mk hword hcondition hbody⟩

/-- Further branches are read by their rule. -/
theorem elifBranches_tracks (rounds : Nat) (ts : Tokens) :
    Tracks (Many (Guarded .elifBranch rule)) ts (elifBranches block budget rounds ts) := by
  induction rounds generalizing ts with
  | zero => exact .nothing fun _ => .nil
  | succ rounds ih =>
    unfold elifBranches
    split
    · next heq =>
      cases heq
      refine .mono ((branch_tracks hblock budget _ _ _ _).bind fun _ _ => (ih _).bind fun _ _ => .gives) ?_
      rintro _ _ _ ⟨_, _, ⟨_, hfirst⟩, _, _, hothers, ⟨⟩⟩
      exact .cons hfirst hothers
    · exact .nothing fun _ => .nil

omit [Productive rule] in
theorem elseBlock_tracks (ts : Tokens) : Tracks (Otherwise rule) ts (elseBlock block ts) := by
  unfold elseBlock
  split
  · refine .mono (.take ((hblock _).bind fun _ _ => .gives)) ?_
    rintro _ _ _ ⟨_, hword, _, _, hbody, ⟨⟩⟩
    exact .some hword hbody
  · exact .nothing fun _ => .none

end

/-- An expression that can be assigned to is a name with fields below it, and nothing else. -/
theorem assignTarget?_sound {bare : Bool} {tier : Nat} {e : Expr} {target : String} {fields : List String}
    {ts rest : Tokens} (h : Expression bare tier e ts rest) (htarget : assignTarget? e = some (target, fields)) :
    ∃ t, Takes (.identifier target) e.loc ts t ∧ Names .dot fields t rest := by
  generalize hn : 7 - tier = n
  induction n using Nat.strongRecOn generalizing tier with
  | ind n ih =>
    cases h with
    | operand _ he => exact ih _ (by omega) he rfl
    | field hroot hdot hname hnames =>
      cases htarget
      exact ⟨_, hroot, .cons hdot hname hnames⟩
    | binding hroute =>
      cases hroute with
      | mk hfirst hnames =>
        cases hnames with
        | nil =>
          cases htarget
          exact ⟨_, hfirst, .nil⟩
        | cons => simp [assignTarget?, Path.ofSegments, Path.isQualified] at htarget
    | _ => cases htarget

theorem viable_expression {read : Tokens} (h : Viable (Expression true 1) read) : Viable Statement read := by
  obtain ⟨value, more, hmore⟩ := h
  refine ⟨.expression value.loc value, more ++ [⟨.symbol .semicolon, "", default⟩], fun rest => ?_⟩
  rw [← List.append_assoc, List.append_assoc _ [_]]
  exact .expression (hmore _) .mk

/-- An expression statement stands where its first token does. -/
theorem expressionOrAssign_tracks (budget : Nat) (token : Token) (ts : Tokens) :
    Tracks Statement (token :: ts) (expressionOrAssign budget token.location (token :: ts)) := by
  have htracks := expr_tracks budget true (token :: ts)
  unfold expressionOrAssign
  cases hexpr : expr budget true (token :: ts) with
  | error fault =>
    rw [hexpr] at htracks
    obtain ⟨read, hts, hread⟩ := htracks
    exact ⟨read, hts, viable_expression hread⟩
  | ok result =>
    obtain ⟨value, rest⟩ := result
    rw [hexpr] at htracks
    obtain ⟨word, hts, hword⟩ := htracks
    have hloc : value.loc = token.location := by
      obtain ⟨first, t, hfirst, _, hloc⟩ := (hword rest).starts
      rw [← hts] at hfirst
      cases hfirst
      exact hloc
    rw [hts, ← hloc, ok_bind]
    dsimp only
    split
    · split
      · exact ⟨word, rfl, viable_expression ⟨value, [], by rwa [List.append_nil]⟩⟩
      · next target fields htarget =>
        have hassigned : Word (fun loc ts rest => ∃ t, Takes (.identifier target) loc ts t ∧ Names .dot fields t rest)
            value.loc word := fun rest => assignTarget?_sound (hword rest) htarget
        refine .mono (.after hassigned (.take ((expr_tracks budget true _).bind fun assigned _ =>
          symbol_tracks.bind fun _ _ => .gives (a := Stmt.assign value.loc target fields assigned)))) ?_
        rintro _ _ _ ⟨_, ⟨_, htarget, hfields⟩, _, hassign, _, _, hvalue, _, _, hend, ⟨⟩⟩
        exact .assign htarget hfields hassign hvalue hend
    · refine .mono (.after hword (symbol_tracks.bind fun _ _ => .gives)) ?_
      rintro _ _ _ ⟨_, hvalue, _, _, hend, ⟨⟩⟩
      exact .expression hvalue hend

theorem returned_tracks (budget : Nat) (ts : Tokens) :
    Tracks (fun value ts rest => value = none ∧ ts = rest ∨ ∃ e, value = some e ∧ Expression true 1 e ts rest) ts
      (returned budget ts) := by
  unfold returned
  split
  · exact .nothing fun _ => .inl ⟨rfl, rfl⟩
  · refine .mono ((expr_tracks budget true ts).bind fun _ _ => .gives) ?_
    rintro _ _ _ ⟨e, _, hvalue, ⟨⟩⟩
    exact .inr ⟨e, rfl, hvalue⟩

/-- A statement is read by its rule, if its blocks are. -/
theorem statement_tracks {block : Tokens → Reading (Block Stmt × Tokens)}
    (hblock : ∀ ts, Tracks (Braced Statement) ts (block ts)) (budget : Nat) (ts : Tokens) :
    Tracks Statement ts (statement block budget ts) := by
  unfold statement
  split
  · exact .fault
  · next kind lexeme loc rest =>
    split
    · refine .mono (.take (identifier_tracks.bind fun _ _ => symbol_tracks.bind fun _ _ =>
        (typeExpr_tracks budget _).bind fun _ _ => symbol_tracks.bind fun _ _ =>
        (expr_tracks budget true _).bind fun _ _ => symbol_tracks.bind fun _ _ => .gives)) ?_
      rintro _ _ _ ⟨_, hword, _, _, hname, _, _, hcolon, _, _, htype, _, _, hassign, _, _, hvalue, _, _, hend, ⟨⟩⟩
      exact .letBinding hword hname hcolon htype hassign hvalue hend
    · refine .mono ((branch_tracks hblock budget _ _ _ _).bind fun _ _ =>
        (elifBranches_tracks hblock budget budget _).bind fun _ _ => (elseBlock_tracks hblock _).bind fun _ _ =>
          .gives) ?_
      rintro _ _ _ ⟨_, _, ⟨rfl, hfirst⟩, _, _, hothers, _, _, hotherwise, ⟨⟩⟩
      exact .ifChain hfirst hothers hotherwise
    · refine .mono (.take ((expr_tracks budget false _).bind fun _ _ => (hblock _).bind fun _ _ => .gives)) ?_
      rintro _ _ _ ⟨_, hword, _, _, hcondition, _, _, hbody, ⟨⟩⟩
      exact .whileLoop hword hcondition hbody
    · refine .mono (.take ((returned_tracks budget _).bind fun _ _ => symbol_tracks.bind fun _ _ => .gives)) ?_
      rintro _ _ _ ⟨_, hword, _, _, ⟨rfl, rfl⟩ | ⟨_, rfl, hvalue⟩, _, _, hend, ⟨⟩⟩
      · exact .returnNothing hword hend
      · exact .returnValue hword hvalue hend
    · refine .mono (.take (symbol_tracks.bind fun _ _ => .gives)) ?_
      rintro _ _ _ ⟨_, hword, _, _, hend, ⟨⟩⟩
      exact .breakLoop hword hend
    · refine .mono (.take (symbol_tracks.bind fun _ _ => .gives)) ?_
      rintro _ _ _ ⟨_, hword, _, _, hend, ⟨⟩⟩
      exact .continueLoop hword hend
    · refine .mono ((hblock _).bind fun _ _ => .gives) ?_
      rintro _ _ _ ⟨_, _, hbody, ⟨⟩⟩
      exact .block hbody
    · exact expressionOrAssign_tracks budget ⟨kind, lexeme, loc⟩ rest

theorem statements_tracks {statement : Tokens → Reading (Stmt × Tokens)} {rule : Rule Stmt}
    (hstatement : ∀ ts, Tracks rule ts (statement ts)) (rounds : Nat) (ts : Tokens) :
    Tracks (Many rule) ts (statements statement rounds ts) := by
  induction rounds generalizing ts with
  | zero => exact .nothing fun _ => .nil
  | succ rounds ih =>
    unfold statements
    split
    · exact .nothing fun _ => .nil
    · refine .mono ((hstatement ts).bind fun _ _ => (ih _).bind fun _ _ => .gives) ?_
      rintro _ _ _ ⟨_, _, hfirst, _, _, hothers, ⟨⟩⟩
      exact .cons hfirst hothers

/-- A block is read by its rule. -/
theorem block_tracks (budget : Nat) (ts : Tokens) : Tracks (Braced Statement) ts (block budget ts) := by
  induction budget generalizing ts with
  | zero => exact .fault
  | succ budget ih =>
    refine .mono (symbol_tracks.bind fun _ _ =>
      (statements_tracks (statement_tracks ih budget) budget _).bind fun _ _ =>
      symbol_tracks.bind fun _ _ => .gives) ?_
    rintro _ _ _ ⟨_, _, hopen, _, _, hbody, _, _, hclose, ⟨⟩⟩
    exact .mk hopen hbody hclose

end Smpl.Parse
