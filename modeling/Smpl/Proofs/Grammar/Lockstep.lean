import Smpl.Proofs.Grammar.Prefix
import Smpl.Proofs.Grammar.Unbounded
import Smpl.Proofs.Relocate.Shape
import Smpl.Proofs.Token.Layout

namespace Smpl

open List

theorem Expr.same_refl (e : Expr) : e.same e :=
  (e.same_iff default e).2 rfl

namespace Parse

/-- Token lists that differ at most in their places. -/
inductive Alike : Tokens → Tokens → Prop
  | nil : Alike [] []
  | cons {kind : TokenKind} {lexeme : String} {loc loc' : Location} {ts ts' : Tokens} :
    Alike ts ts' → Alike (⟨kind, lexeme, loc⟩ :: ts) (⟨kind, lexeme, loc'⟩ :: ts')

theorem Alike.length_eq {ts ts' : Tokens} (h : Alike ts ts') : ts.length = ts'.length := by
  induction h with
  | nil => rfl
  | cons _ ih => rw [length_cons, length_cons, ih]

theorem Alike.tail {ts ts' : Tokens} (h : Alike ts ts') : Alike ts.tail ts'.tail := by
  cases h with
  | nil => exact .nil
  | cons h => exact h

theorem Alike.isEmpty_eq {ts ts' : Tokens} (h : Alike ts ts') : ts.isEmpty = ts'.isEmpty := by
  cases h <;> rfl

theorem startsWith_eq {ts ts' : Tokens} (mark : Symbol) (h : Alike ts ts') :
    startsWith mark ts = startsWith mark ts' := by
  cases h with
  | nil => rfl
  | @cons kind => cases kind <;> rfl

theorem binaryOp?_eq {ts ts' : Tokens} (precedence : Nat) (h : Alike ts ts') :
    (binaryOp? precedence ts).map (·.1) = (binaryOp? precedence ts').map (·.1) := by
  cases h with
  | nil => rfl
  | @cons kind =>
    cases kind with
    | symbol mark =>
      dsimp only [binaryOp?]
      cases BinaryOp.ofSymbol? mark with
      | none => rfl
      | some op => by_cases hop : op.precedence = precedence <;> simp [hop]
    | identifier | keyword | integer | float | string => rfl

def Round.same {α : Type} (same : α → α → Bool) : Round α → Round α → Bool
  | .again a, .again b => same a b
  | .done as, .done bs => sameLists same as bs
  | _, _ => false

mutual

@[simp] def Loop.same : {α : Type} → Loop α → α → α → Bool
  | _, .elements _ element => element.same
  | _, .names .. => fun a b => a = b
  | _, .elifBranches => fun a b => a.condition.same b.condition && sameBlock a.body b.body
  | _, .statements => Stmt.same
  | _, .items => Item.same

/-- Whether two results of a parse function differ at most in places. -/
@[simp] def Routine.same : {α : Type} → Routine α → α → α → Bool
  | _, .gather loop => sameLists loop.same
  | _, .round loop => Round.same loop.same
  | _, .bracketed inner => inner.same
  | _, .symbol .. | _, .fnAfterBuiltin => fun _ _ => true
  | _, .identifier _ => fun a b => a.1 = b.1
  | _, .typeList element => sameLists element.same
  | _, .path | _, .arrayEnd | _, .typeParam | _, .moduleName => fun a b => a = b
  | _, .arrowType => sameType?
  | _, .type => TypeExpr.same
  | _, .extend .. | _, .returned => sameExpr?
  | _, .chain .. | _, .tier _ | _, .unary | _, .leaf | _, .pathExpr | _, .condition => Expr.same
  | _, .fieldInit => fun a b => a.name = b.name && a.value.same b.value
  | _, .initFields => sameInits
  | _, .branch _ => fun a b => a.condition.same b.condition && sameBlock a.body b.body
  | _, .elseBlock => sameBlock?
  | _, .expressionOrAssign | _, .statement => Stmt.same
  | _, .block => sameBlock
  | _, .member _ => Member.same
  | _, .header => Header.same
  | _, .item => Item.same
  | _, .file => fun a b => a.1 = b.1 && sameLists Item.same a.2 b.2

end

/-- Calls that differ at most in the places they are given. -/
inductive Routine.Like : {α : Type} → Routine α → Routine α → Prop
  | refl {α : Type} (routine : Routine α) : Like routine routine
  | extend {level : Nat} {left left' : Expr} : left.same left' → Like (.extend level left) (.extend level left')
  | chain {level : Nat} {left left' : Expr} : left.same left' → Like (.chain level left) (.chain level left')
  | branch {loc loc' : Location} : Like (.branch loc) (.branch loc')

/-- Plans that go the same way on tokens that differ in places alone, up to such results. -/
inductive Plan.Like {α : Type} (same : α → α → Bool) : Plan α → Plan α → Prop
  | result {a b : α} : same a b = true → Like same (.result a) (.result b)
  | fault {kind : FaultKind} : Like same (.fault kind) (.fault kind)
  | look {next next' : Tokens → Plan α} :
    (∀ {ts ts'}, Alike ts ts' → Like same (next ts) (next' ts')) → Like same (.look next) (.look next')
  | flag {next next' : Bool → Plan α} :
    (∀ bare, Like same (next bare) (next' bare)) → Like same (.flag next) (.flag next')
  | advance {next next' : Plan α} : Like same next next' → Like same (.advance next) (.advance next')
  | allow {bare : Bool} {next next' : Plan α} : Like same next next' → Like same (.allow bare next) (.allow bare next')
  | call {β : Type} {routine routine' : Routine β} {next next' : β → Plan α} : routine.Like routine' →
    (∀ {b b'}, routine.same b b' = true → Like same (next b) (next' b')) →
    Like same (.call routine next) (.call routine' next')

variable {α : Type}

/-- Plans that call the same function and then go on alike are alike. -/
theorem Plan.Like.step {β : Type} {same : α → α → Bool} {routine : Routine β} {next next' : β → Plan α}
    (h : ∀ {b b'}, routine.same b b' = true → Like same (next b) (next' b')) :
    Like same (.call routine next) (.call routine next') :=
  .call (.refl _) h

theorem eq_of_sameLists_eq {names names' : List String} (h : sameLists (fun a b => decide (a = b)) names names') :
    names = names' := by
  simpa using (sameLists_iff (g := id) fun a _ b => by simp).1 h

theorem assignTarget?_eq_of_same {e e' : Expr} (h : e.same e') : assignTarget? e = assignTarget? e' := by
  cases e <;> cases e' <;> simp_all [Expr.same, assignTarget?]

theorem round_elements_like (closer : Symbol) (element : Routine α) :
    (Routine.round (.elements closer element)).plan.Like (Routine.round (.elements closer element)).same
      (Routine.round (.elements closer element)).plan := by
  refine .look fun h => ?_
  rw [startsWith_eq closer h]
  split
  · exact .result rfl
  · refine .step fun {next next'} hnext => .look fun h => ?_
    have hlast : Plan.Like (Round.same element.same) (.result (.done [next])) (.result (.done [next'])) :=
      .result (by simpa [Round.same, sameLists] using hnext)
    cases h with
    | nil => exact hlast
    | @cons kind =>
      cases kind with
      | symbol mark =>
        cases mark with
        | comma => exact .advance (.result hnext)
        | _ => exact hlast
      | _ => exact hlast

theorem typeList_like (element : Routine α) :
    (Routine.typeList element).plan.Like (sameLists element.same) (Routine.typeList element).plan := by
  refine .look fun h => ?_
  split
  · obtain _ | _ | _ := h
    refine .advance (.advance ?_)
    refine .step fun {first first'} hfirst => .look fun h => ?_
    have hclose : Plan.Like (sameLists element.same) (expect .rightParen .rightParen >>= fun _ => pure [first])
        (expect .rightParen .rightParen >>= fun _ => pure [first']) :=
      .step fun _ => .result (by simpa [sameLists] using hfirst)
    cases h with
    | nil => exact hclose
    | @cons kind =>
      cases kind with
      | symbol mark =>
        cases mark with
        | comma =>
          refine .advance (.step fun hothers => ?_)
          refine .step fun _ => ?_
          exact .result (by simpa [sameLists] using And.intro hfirst hothers)
        | _ => exact hclose
      | _ => exact hclose
  · split
    · obtain _ | _ | _ := h
      grind
    · exact .result rfl

/-- Types are read alike wherever they stand. -/
theorem type_like : Routine.type.plan.Like TypeExpr.same Routine.type.plan := by
  refine .look fun h => ?_
  cases h with
  | nil => exact .fault
  | @cons kind =>
    cases kind with
    | identifier =>
      refine .step fun hpath => ?_
      refine .step fun hargs => ?_
      exact .result (by simpa [TypeExpr.same, sameTypes_eq_sameLists] using And.intro hpath hargs)
    | symbol mark =>
      cases mark with
      | leftBracket =>
        refine .advance (.step fun helement => ?_)
        refine .step fun _ => ?_
        refine .step fun hlength => ?_
        exact .result (by simpa [TypeExpr.same] using And.intro helement hlength)
      | _ => exact .fault
    | keyword word =>
      cases word with
      | fn =>
        refine .advance (.step fun _ => ?_)
        refine .step fun hparams => ?_
        refine .step fun _ => ?_
        refine .step fun hresult => ?_
        exact .result (by simpa [TypeExpr.same, sameTypes_eq_sameLists] using And.intro hparams hresult)
      | _ => exact .fault
    | _ => exact .fault

theorem extend_like {level : Nat} {left left' : Expr} (hleft : left.same left') :
    (Routine.extend level left).plan.Like sameExpr? (Routine.extend level left').plan := by
  refine .look fun {ts ts'} h => ?_
  have hop := binaryOp?_eq (5 - level) h
  cases hfound : binaryOp? (5 - level) ts <;> cases hfound' : binaryOp? (5 - level) ts' <;>
    simp only [hfound, hfound', Option.map_some, Option.map_none, reduceCtorEq, Option.some.injEq] at hop
  · exact .result rfl
  · dsimp only
    rw [hop]
    refine .advance (.step fun hright => ?_)
    exact .result (by simpa [sameExpr?, Expr.same] using And.intro hleft hright)

/-- Operators in a row are read alike, from operands that are the same except for places. -/
theorem chain_like {level : Nat} {left left' : Expr} (hleft : left.same left') :
    (Routine.chain level left).plan.Like Expr.same (Routine.chain level left').plan := by
  refine .call (.extend hleft) fun {longer longer'} hlonger => ?_
  cases longer with
  | none =>
    cases longer' with
    | none => exact .result hleft
    | some => cases hlonger
  | some =>
    cases longer' with
    | none => cases hlonger
    | some => exact .call (.chain hlonger) fun h => .result h

theorem unary_like : Routine.unary.plan.Like Expr.same Routine.unary.plan := by
  refine .look fun h => ?_
  cases h with
  | nil => exact .step fun h => .result h
  | @cons kind =>
    cases kind
    case symbol mark =>
      cases mark
      case and | minus | not | ampersand | star =>
        refine .advance (.step fun hoperand => ?_)
        exact .result (by simpa [Expr.same] using hoperand)
      all_goals exact .step fun h => .result h
    all_goals exact .step fun h => .result h

theorem leaf_like : Routine.leaf.plan.Like Expr.same Routine.leaf.plan := by
  refine .look fun h => ?_
  cases h with
  | nil => exact .fault
  | @cons kind =>
    cases kind with
    | identifier => exact .step fun h => .result h
    | integer | float | string => exact .advance (.result (by simp [Expr.same]))
    | symbol mark =>
      cases mark with
      | leftParen =>
        refine .advance (.step fun hinner => ?_)
        refine .step fun _ => ?_
        exact .result (by simpa [Expr.same] using hinner)
      | _ => exact .fault
    | keyword word =>
      cases word with
      | trueValue | falseValue => exact .advance (.result rfl)
      | init =>
        refine .advance (.step fun hpath => ?_)
        refine .step fun hfields => ?_
        exact .result (by simpa [Expr.same] using And.intro hpath hfields)
      | _ => exact .fault

/-- What follows a path is read alike wherever it stands. -/
theorem pathExpr_like : Routine.pathExpr.plan.Like Expr.same Routine.pathExpr.plan := by
  refine .look fun _ => .step fun {path path'} hpath => .look fun h => ?_
  obtain rfl : path = path' := by simpa [Routine.same] using hpath
  have hbinding {loc loc' : Location} :
    Plan.Like Expr.same (.result (.binding loc path)) (.result (.binding loc' path)) :=
    .result (by simp [Expr.same])
  cases h with
  | nil => exact hbinding
  | @cons kind =>
    cases kind with
    | symbol mark =>
      cases mark with
      | leftParen =>
        refine .step fun htypes => ?_
        refine .step fun _ => ?_
        refine .step fun hargs => ?_
        refine .step fun _ => ?_
        have hparts := And.intro htypes hargs
        exact .result (by simpa [Expr.same, sameTypes_eq_sameLists, sameExprs_eq_sameLists] using hparts)
      | leftBrace =>
        refine .flag fun bare => ?_
        cases bare with
        | true => exact .step fun hfields => .result (by simpa [Expr.same] using hfields)
        | false => exact hbinding
      | dot =>
        dsimp only
        split
        · exact hbinding
        · exact .step fun hfields => .result (by simp [Expr.same, eq_of_sameLists_eq hfields])
      | _ => exact hbinding
    | _ => exact hbinding

theorem expressionOrAssign_like : Routine.expressionOrAssign.plan.Like Stmt.same Routine.expressionOrAssign.plan := by
  refine .look fun _ => .step fun {value value'} hvalue => .look fun h => ?_
  have hend {loc loc' : Location} : Plan.Like Stmt.same
      (expect .semicolon .semicolon >>= fun _ => pure (.expression loc value))
      (expect .semicolon .semicolon >>= fun _ => pure (.expression loc' value')) :=
    .step fun _ => .result (by simpa [Stmt.same] using hvalue)
  cases h with
  | nil => exact hend
  | @cons kind =>
    cases kind with
    | symbol mark =>
      cases mark with
      | assign =>
        dsimp only
        rw [assignTarget?_eq_of_same hvalue]
        split
        · exact .fault
        · refine .advance (.step fun hassigned => ?_)
          refine .step fun _ => ?_
          exact .result (by simpa [Stmt.same] using hassigned)
      | _ => exact hend
    | _ => exact hend

/-- Statements are read alike wherever they stand. -/
theorem statement_like : Routine.statement.plan.Like Stmt.same Routine.statement.plan := by
  refine .look fun h => ?_
  cases h with
  | nil => exact .fault
  | cons h =>
    dsimp only
    split
    · refine .advance (.step fun hname => ?_)
      refine .step fun _ => ?_
      refine .step fun htype => ?_
      refine .step fun _ => ?_
      refine .step fun hvalue => ?_
      refine .step fun _ => ?_
      exact .result (by simpa [Stmt.same] using And.intro (And.intro hname htype) hvalue)
    · refine .advance (.call .branch fun hfirst => ?_)
      refine .step fun hothers => ?_
      refine .step fun hotherwise => ?_
      have hbranches := And.intro hfirst hothers
      exact .result (by simpa [Stmt.same, sameBranches_eq_sameLists, sameLists] using And.intro hbranches hotherwise)
    · refine .advance (.step fun hcondition => ?_)
      refine .step fun hbody => ?_
      exact .result (by simpa [Stmt.same] using And.intro hcondition hbody)
    · refine .advance (.step fun hvalue => ?_)
      refine .step fun _ => ?_
      exact .result (by simpa [Stmt.same] using hvalue)
    · exact .advance (.step fun _ => .result (by simp [Stmt.same]))
    · exact .advance (.step fun _ => .result (by simp [Stmt.same]))
    · exact .step fun hbody => .result (by simpa [Stmt.same] using hbody)
    · exact .step fun hsame => .result hsame

/-- Items are read alike wherever they stand. -/
theorem item_like : Routine.item.plan.Like Item.same Routine.item.plan := by
  refine .look fun h => ?_
  cases h with
  | nil => exact .fault
  | @cons kind =>
    cases kind with
    | keyword word =>
      cases word with
      | use =>
        refine .advance (.step fun hname => ?_)
        refine .step fun _ => ?_
        exact .result (by simpa [Item.same] using hname)
      | struct =>
        refine .advance (.step fun hname => ?_)
        refine .step fun _ => ?_
        refine .step fun hfields => ?_
        refine .step fun _ => ?_
        exact .result (by simpa [Item.same] using And.intro hname hfields)
      | opaqueType =>
        refine .advance (.step fun hname => ?_)
        refine .step fun htypes => ?_
        refine .step fun _ => ?_
        exact .result (by simpa [Item.same] using And.intro hname (eq_of_sameLists_eq htypes))
      | fn =>
        refine .advance (.step fun hheader => ?_)
        refine .step fun hbody => ?_
        exact .result (by simpa [Item.same] using And.intro hheader hbody)
      | builtin =>
        refine .advance (.step fun _ => ?_)
        refine .step fun hheader => ?_
        refine .step fun _ => ?_
        exact .result (by simpa [Item.same] using hheader)
      | _ => exact .fault
    | _ => exact .fault

theorem symbol_like (mark : Symbol) (expected : Expected) :
    (Routine.symbol mark expected).plan.Like (fun _ _ => true) (Routine.symbol mark expected).plan := by
  refine .look fun h => ?_
  cases h with
  | nil => exact .fault
  | @cons kind =>
    cases kind with
    | symbol found =>
      dsimp only
      split
      · exact .advance (.result rfl)
      · exact .fault
    | _ => exact .fault

theorem identifier_like (expected : Expected) :
    (Routine.identifier expected).plan.Like (fun a b => a.1 = b.1) (Routine.identifier expected).plan := by
  refine .look fun h => ?_
  cases h with
  | nil => exact .fault
  | @cons kind =>
    cases kind with
    | identifier => exact .advance (.result (by simp))
    | _ => exact .fault

theorem arrowType_like : Routine.arrowType.plan.Like sameType? Routine.arrowType.plan := by
  refine .look fun h => ?_
  cases h with
  | nil => exact .result rfl
  | @cons kind =>
    cases kind with
    | symbol mark =>
      cases mark with
      | arrow => exact .advance (.step fun hresult => .result hresult)
      | _ => exact .result rfl
    | _ => exact .result rfl

theorem arrayEnd_like : Routine.arrayEnd.plan.Like (fun a b => a = b) Routine.arrayEnd.plan := by
  refine .look fun h => ?_
  cases h with
  | nil => exact .fault
  | @cons kind =>
    cases kind with
    | integer =>
      dsimp only
      split
      · exact .fault
      · exact .advance (.step fun _ => .result (by simp))
    | _ => exact .fault

theorem elseBlock_like : Routine.elseBlock.plan.Like sameBlock? Routine.elseBlock.plan := by
  refine .look fun h => ?_
  have hnone : sameBlock? none none = true := by simp [sameBlock?]
  cases h with
  | nil => exact .result hnone
  | @cons kind =>
    cases kind with
    | keyword word =>
      cases word with
      | elseBranch =>
        refine .advance (.step fun hbody => ?_)
        exact .result (by simpa [sameBlock?] using hbody)
      | _ => exact .result hnone
    | _ => exact .result hnone

theorem fnAfterBuiltin_like : Routine.fnAfterBuiltin.plan.Like (fun _ _ => true) Routine.fnAfterBuiltin.plan := by
  refine .look fun h => ?_
  cases h with
  | nil => exact .fault
  | @cons kind =>
    cases kind with
    | keyword word =>
      cases word with
      | fn => exact .advance (.result rfl)
      | _ => exact .fault
    | _ => exact .fault

theorem moduleName_like : Routine.moduleName.plan.Like (fun a b => a = b) Routine.moduleName.plan := by
  refine .look fun h => ?_
  cases h with
  | nil => exact .result rfl
  | @cons kind =>
    cases kind with
    | keyword word =>
      cases word with
      | mod =>
        refine .advance (.step fun hname => ?_)
        refine .step fun _ => ?_
        exact .result (by simpa using hname)
      | _ => exact .result rfl
    | _ => exact .result rfl

theorem branch_like (loc loc' : Location) :
    (Routine.branch loc).plan.Like (Routine.branch loc).same (Routine.branch loc').plan := by
  refine .step fun hcondition => ?_
  refine .step fun hbody => ?_
  exact .result (by simpa using And.intro hcondition hbody)

theorem round_like (loop : Loop α) :
    (Routine.round loop).plan.Like (Round.same loop.same) (Routine.round loop).plan := by
  cases loop with
  | elements closer element => exact round_elements_like closer element
  | names separator expected =>
    refine .look fun h => ?_
    rw [startsWith_eq separator h]
    split
    · exact .advance (.step fun hname => .result hname)
    · exact .result rfl
  | elifBranches =>
    refine .look fun h => ?_
    cases h with
    | nil => exact .result rfl
    | @cons kind =>
      cases kind with
      | keyword word =>
        cases word with
        | elifBranch => exact .advance (.call .branch fun hnext => .result hnext)
        | _ => exact .result rfl
      | _ => exact .result rfl
  | statements =>
    refine .look fun h => ?_
    rw [h.isEmpty_eq, startsWith_eq _ h]
    split
    · exact .result rfl
    · exact .step fun hnext => .result hnext
  | items =>
    refine .look fun h => ?_
    rw [h.isEmpty_eq]
    split
    · exact .result rfl
    · exact .step fun hnext => .result hnext

/-- What a parse function does is the same on tokens that differ in places alone. -/
theorem Routine.Like.plan {routine routine' : Routine α} (h : routine.Like routine') :
    routine.plan.Like routine.same routine'.plan := by
  cases h with
  | extend hleft => exact extend_like hleft
  | chain hleft => exact chain_like hleft
  | branch => exact branch_like _ _
  | refl =>
    cases routine with
    | gather loop =>
      refine .step fun {round round'} hround => ?_
      cases round with
      | again =>
        cases round' with
        | again =>
          refine .step fun hothers => ?_
          exact .result (by simpa [sameLists, Round.same] using And.intro hround hothers)
        | done => cases hround
      | done =>
        cases round' with
        | again => cases hround
        | done => exact .result hround
    | round loop => exact round_like loop
    | bracketed | condition => exact .flag fun _ => .allow (.step fun h => .allow (.result h))
    | symbol mark expected => exact symbol_like mark expected
    | identifier => exact identifier_like _
    | typeList element => exact typeList_like element
    | path =>
      refine .step fun hfirst => ?_
      refine .step fun hothers => ?_
      exact .result (by simp [of_decide_eq_true hfirst, eq_of_sameLists_eq hothers])
    | arrowType => exact arrowType_like
    | arrayEnd => exact arrayEnd_like
    | type => exact type_like
    | extend level left => exact extend_like left.same_refl
    | chain level left => exact chain_like left.same_refl
    | tier level =>
      cases level with
      | zero => exact .step fun h => .result h
      | succ level =>
        refine .step fun hleft => ?_
        exact .call (.chain hleft) fun hsame => .result hsame
    | unary => exact unary_like
    | leaf => exact leaf_like
    | pathExpr => exact pathExpr_like
    | fieldInit =>
      refine .step fun hname => ?_
      refine .step fun _ => ?_
      refine .step fun hvalue => ?_
      exact .result (by simpa using And.intro hname hvalue)
    | initFields =>
      refine .step fun _ => ?_
      refine .step fun hfields => ?_
      refine .step fun _ => ?_
      exact .result (by simpa [sameInits_eq_sameLists] using hfields)
    | branch => exact branch_like _ _
    | elseBlock => exact elseBlock_like
    | returned =>
      refine .look fun h => ?_
      rw [startsWith_eq _ h]
      split
      · exact .result rfl
      · exact .step fun hvalue => .result hvalue
    | expressionOrAssign => exact expressionOrAssign_like
    | statement => exact statement_like
    | block =>
      refine .step fun _ => ?_
      refine .step fun hbody => ?_
      refine .step fun _ => ?_
      exact .result (by simpa [sameBlock, sameStmts_eq_sameLists] using hbody)
    | member =>
      refine .step fun hname => ?_
      refine .step fun _ => ?_
      refine .step fun htype => ?_
      exact .result (by simpa [Member.same] using And.intro hname htype)
    | typeParam => exact .step fun hname => .result hname
    | header =>
      refine .step fun hname => ?_
      refine .step fun htypes => ?_
      refine .step fun _ => ?_
      refine .step fun hparams => ?_
      refine .step fun _ => ?_
      refine .step fun hresult => ?_
      have hnames := And.intro hname (eq_of_sameLists_eq htypes)
      exact .result (by simpa [Header.same] using And.intro (And.intro hnames hparams) hresult)
    | fnAfterBuiltin => exact fnAfterBuiltin_like
    | item => exact item_like
    | moduleName => exact moduleName_like
    | file =>
      refine .step fun hname => ?_
      refine .step fun hitems => ?_
      exact .result (by simpa using And.intro hname hitems)

/-- Outcomes that correspond: with results alike, or with the same fault, and before tokens that differ at most in
    their places. -/
inductive Agree (same : α → α → Bool) : Reading (α × Stand) → Reading (α × Stand) → Prop
  | ok {a b : α} {rest rest' : Tokens} {bare : Bool} :
    same a b = true → Alike rest rest' → Agree same (.ok (a, ⟨rest, bare⟩)) (.ok (b, ⟨rest', bare⟩))
  | fault {kind : FaultKind} {rest rest' : Tokens} :
    Alike rest rest' → Agree same (.error ⟨kind, rest⟩) (.error ⟨kind, rest'⟩)

/-- A run is followed step by step on tokens that differ from its own in places alone. -/
theorem Plan.Run.exists_agree {plan plan' : Plan α} {same : α → α → Bool} {s : Stand} {x : Reading (α × Stand)}
    (hrun : plan.Run s x) (h : plan.Like same plan') {ts' : Tokens} (hts : Alike s.rest ts') :
    ∃ y, plan'.Run ⟨ts', s.bare⟩ y ∧ Agree same x y := by
  induction hrun generalizing ts' with
  | result =>
    cases h with
    | result h => exact ⟨_, .result, .ok h hts⟩
  | fault =>
    cases h
    exact ⟨_, .fault, .fault hts⟩
  | look _ ih =>
    cases h with
    | look h =>
      obtain ⟨y, hy, hagree⟩ := ih (h hts) hts
      exact ⟨y, .look hy, hagree⟩
  | flag _ ih =>
    cases h with
    | flag h =>
      obtain ⟨y, hy, hagree⟩ := ih (h _) hts
      exact ⟨y, .flag hy, hagree⟩
  | advance _ ih =>
    cases h with
    | advance h =>
      obtain ⟨y, hy, hagree⟩ := ih h hts.tail
      exact ⟨y, .advance hy, hagree⟩
  | allow _ ih =>
    cases h with
    | allow h =>
      obtain ⟨y, hy, hagree⟩ := ih h hts
      exact ⟨y, .allow hy, hagree⟩
  | call _ _ ih ihnext =>
    cases h with
    | call hroutine h =>
      obtain ⟨_, hy, hagree⟩ := ih hroutine.plan hts
      cases hagree with
      | ok hsame hrest =>
        obtain ⟨y, hnext, hagree⟩ := ihnext (h hsame) hrest
        exact ⟨y, .call hy hnext, hagree⟩
  | callFault _ ih =>
    cases h with
    | call hroutine h =>
      obtain ⟨_, hy, hagree⟩ := ih hroutine.plan hts
      cases hagree with
      | fault hrest => exact ⟨_, .callFault hy, .fault hrest⟩

/-- Two runs to the end of the tokens end alike. -/
inductive EndAlike (same : α → α → Prop) : Reading α → Reading α → Prop
  | ok {a b : α} : same a b → EndAlike same (.ok a) (.ok b)
  | fault {kind : FaultKind} {rest rest' : Tokens} :
    Alike rest rest' → EndAlike same (.error ⟨kind, rest⟩) (.error ⟨kind, rest'⟩)

theorem alike_of_shapes {ts ts' : Tokens} (h : ts'.map Token.shape = ts.map Token.shape) : Alike ts ts' := by
  induction ts generalizing ts' with
  | nil =>
    cases map_eq_nil_iff.1 h
    exact .nil
  | cons token ts ih =>
    obtain ⟨⟨kind, lexeme, loc⟩, rest, rfl, hshape, hrest⟩ := map_eq_cons_iff.1 h
    obtain ⟨kind', lexeme', loc'⟩ := token
    cases hshape
    exact .cons (ih hrest)

end Parse

open Parse

/-- Tokens that differ in places alone are read as the same module, or refused at the same token. -/
theorem Module.ofTokens_endAlike (file file' : String) {stream stream' : TokenStream}
    (h : Alike stream.tokens stream'.tokens) :
    EndAlike (fun a b => a.same b) (Module.ofTokens file stream) (Module.ofTokens file' stream') := by
  have hagree {x y} (hx : Routine.file.plan.Run ⟨stream.tokens, true⟩ x)
      (hy : Routine.file.plan.Run ⟨stream'.tokens, true⟩ y) : Agree Routine.file.same x y := by
    obtain ⟨z, hz, hagree⟩ := hx.exists_agree (Routine.Like.refl _).plan h
    rwa [hy.unique hz]
  obtain ⟨name, items, hx, hread⟩ | ⟨fault, hx, hread⟩ := Module.ofTokens_cases file stream <;>
  obtain ⟨name', items', hy, hread'⟩ | ⟨fault', hy, hread'⟩ := Module.ofTokens_cases file' stream' <;>
  rw [hread, hread'] <;> cases hagree hx hy
  case ok hsame _ => exact .ok (by simpa [Module.same] using hsame)
  case fault hrest => exact .fault hrest

/-- What a syntax error says depends on the token where it is found, not on its place. -/
theorem ParseFault.cause_diagnostic_eq {kind : FaultKind} {rest rest' : Tokens} (h : Alike rest rest')
    (finish finish' : Location) (lines lines' : List String) :
    (ParseFault.diagnostic ⟨kind, rest⟩ finish lines).cause =
      (ParseFault.diagnostic ⟨kind, rest'⟩ finish' lines').cause := by
  cases h with
  | nil => cases kind <;> rfl
  | @cons token => cases kind <;> cases token <;> rfl

/-- Blanks and comments make no difference: with its lexemes set apart in any other way, a text is read as
    the same tokens, and as the same tree or with the same fault at the same token. -/
theorem Module.ofSource_laidOut {file source : String} {stream : TokenStream} {lead : List Char}
    {gaps : List (List Char)} (h : tokenize file source.toList = .ok stream) (hlead : Separator lead)
    (hgaps : ∀ gap ∈ gaps, Gap gap) (hlength : gaps.length = stream.tokens.length) (file' : String) :
    ∃ stream', tokenize file' (lead ++ laidOut stream.tokens gaps) = .ok stream' ∧
      stream'.tokens.map Token.shape = stream.tokens.map Token.shape ∧
      ((∃ module_ module_', Module.ofSource file source = .ok module_ ∧
          Module.ofSource file' (String.ofList (lead ++ laidOut stream.tokens gaps)) = .ok module_' ∧
          module_.same module_') ∨
        ∃ d d' index, Module.ofSource file source = .error (.diagnostic d) ∧
          Module.ofSource file' (String.ofList (lead ++ laidOut stream.tokens gaps)) = .error (.diagnostic d') ∧
          d.cause.category = .parsing ∧ d.cause = d'.cause ∧ stream.PointsAt d index ∧ stream'.PointsAt d' index) := by
  obtain ⟨stream', h', hshapes⟩ := exists_stream_of_laidOut h hlead hgaps hlength
  refine ⟨stream', h', hshapes, ?_⟩
  have halike := alike_of_shapes hshapes
  have hread := Module.ofTokens_endAlike file file' halike
  simp only [Module.ofSource, String.toList_ofList, h, h', ok_bind, Module.parse]
  generalize hx : Module.ofTokens file stream = x at hread ⊢
  generalize hy : Module.ofTokens file' stream' = y at hread ⊢
  cases hread with
  | ok hsame => exact .inl ⟨_, _, rfl, rfl, hsame⟩
  | @fault kind rest rest' hrest =>
    obtain ⟨read, hfault, _⟩ := Module.viable_of_ofTokens hx
    obtain ⟨read', hfault', _⟩ := Module.viable_of_ofTokens hy
    have hindex : read'.length = read.length := by
      have hlength := halike.length_eq
      have hrest := hrest.length_eq
      simp only [hfault, hfault', length_append] at hlength
      omega
    refine .inr ⟨_, _, read.length, rfl, rfl, ParseFault.category_diagnostic _ _ _, ?_, ?_, ?_⟩
    · exact ParseFault.cause_diagnostic_eq hrest _ _ _ _
    · exact TokenStream.pointsAt_of_tokenize h hfault _
    · rw [← hindex]
      exact TokenStream.pointsAt_of_tokenize h' hfault' _

/-- A comment in the place of a blank, and others before and between tokens. -/
theorem Module.ofSource_laidOut_use :
    ∃ stream stream' module_ module_', tokenize "m" "use a;".toList = .ok stream ∧
      tokenize "n" "/**/use a\n// b\n;\t".toList = .ok stream' ∧
      stream'.tokens.map Token.shape = stream.tokens.map Token.shape ∧
      Module.ofSource "m" "use a;" = .ok module_ ∧
      Module.ofSource "n" "/**/use a\n// b\n;\t" = .ok module_' ∧ module_.same module_' := by
  have hread : ((tokenize "m" "use a;".toList).toOption.any fun stream =>
      "/**/".toList ++ laidOut stream.tokens [[' '], "\n// b\n".toList, ['\t']] = "/**/use a\n// b\n;\t".toList ∧
        3 = stream.tokens.length) = true := by
    decide +kernel
  have hparsed : (Module.ofSource "m" "use a;").toOption.isSome = true := by decide +kernel
  have hlead : Separator "/**/".toList := @Separator.blockComment [] [] (by decide) .nil
  have hgaps : ∀ gap ∈ [[' '], "\n// b\n".toList, ['\t']], Gap gap := by
    simp only [forall_mem_cons]
    refine ⟨⟨.blank rfl .nil, _, _, rfl, rfl⟩, ⟨.blank rfl ?_, _, _, rfl, rfl⟩, ⟨.blank rfl .nil, _, _, rfl, rfl⟩, ?_⟩
    · exact @Separator.lineComment [' ', 'b'] [] (by decide) .nil
    · simp
  obtain ⟨stream, hstream, hchecked⟩ := exists_eq_ok_of_any hread
  obtain ⟨htext, hlength⟩ := of_decide_eq_true hchecked
  obtain ⟨stream', h', hshapes, hparse⟩ := Module.ofSource_laidOut hstream hlead hgaps hlength "n"
  rw [htext, String.ofList_toList] at hparse
  rw [htext] at h'
  obtain ⟨module_, module_', hmodule, hmodule', hsame⟩ | ⟨_, _, _, hfailure, _⟩ := hparse
  · exact ⟨stream, stream', module_, module_', hstream, h', hshapes, hmodule, hmodule', hsame⟩
  · rw [hfailure] at hparsed
    cases hparsed

end Smpl
