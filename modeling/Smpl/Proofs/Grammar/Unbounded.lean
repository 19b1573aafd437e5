import Smpl.Proofs.Grammar.Expression.Soundness
import Smpl.Proofs.Grammar.Routine

namespace Smpl

namespace Parse

/-- What a reading comes to where the flag is as given. -/
def under {α : Type} (bare : Bool) : Reading (α × Tokens) → Reading (α × Stand)
  | .ok (a, rest) => .ok (a, ⟨rest, bare⟩)
  | .error fault => .error fault

/-- The reading comes to what the routine does, wherever the budget covers the tokens that are left. -/
class Routine.Reads {α : Type} (routine : Routine α) (budget : Nat) (bare : Bool)
    (read : Tokens → Reading (α × Tokens)) : Prop where
  run : ∀ {ts : Tokens}, ts.length ≤ budget → routine.plan.Run ⟨ts, bare⟩ (under bare (read ts))

variable {α β : Type} {routine : Routine α} {budget : Nat} {bare : Bool} {read : Tokens → Reading (α × Tokens)}
  {ts : Tokens}

/-- What is read takes a token where the routine advances. -/
theorem Routine.suffix_of_reads (routine : Routine α) (bare : Bool) [h : routine.Reads budget bare read]
    (hts : ts.length ≤ budget) {a : α} {rest : Tokens} (hread : read ts = .ok (a, rest)) :
    rest <:+ ts ∧ (routine.advances a = true → rest.length < ts.length) := by
  obtain ⟨x, hx, hkeeps⟩ := routine.exists_run ⟨ts, bare⟩
  have hrun := h.run hts
  rw [hread] at hrun
  cases hx.unique hrun
  exact hkeeps.2

/-- A call runs as the budgeted function reads, and then goes on with what is left. -/
theorem Plan.Run.bind [h : routine.Reads budget bare read] {next : α → Plan β} {f : α × Tokens → Reading (β × Tokens)}
    (hts : ts.length ≤ budget)
    (hnext : ∀ {a rest}, rest.length ≤ budget → (routine.advances a = true → rest.length < ts.length) →
      (next a).Run ⟨rest, bare⟩ (under bare (f (a, rest)))) :
    (Plan.call routine next).Run ⟨ts, bare⟩ (under bare (read ts >>= f)) := by
  have hrun := h.run hts
  cases hread : read ts with
  | error fault =>
    rw [hread] at hrun
    exact .callFault hrun
  | ok result =>
    rw [hread] at hrun
    obtain ⟨hrest, hlt⟩ := routine.suffix_of_reads bare hts hread
    exact .call hrun (hnext (Nat.le_trans hrest.length_le hts) hlt)

/-- What a run comes to after one that has come to the first outcome. -/
def Plan.Goes (next : α → Plan β) (x : Reading (β × Stand)) : Reading (α × Stand) → Prop
  | .ok (a, s) => (next a).Run s x
  | .error failure => x = .error failure

theorem Plan.Run.exists_of_bind {plan : Plan α} {next : α → Plan β} {s : Stand} {x : Reading (β × Stand)}
    (h : (plan.bind next).Run s x) : ∃ y, plan.Run s y ∧ Plan.Goes next x y := by
  induction plan generalizing s with
  | result => exact ⟨_, .result, h⟩
  | fault =>
    cases h
    exact ⟨_, .fault, rfl⟩
  | look _ ih =>
    cases h with
    | look h => exact (ih _ h).imp fun _ h => ⟨.look h.1, h.2⟩
  | flag _ ih =>
    cases h with
    | flag h => exact (ih _ h).imp fun _ h => ⟨.flag h.1, h.2⟩
  | advance _ ih =>
    cases h with
    | advance h => exact (ih h).imp fun _ h => ⟨.advance h.1, h.2⟩
  | allow _ _ ih =>
    cases h with
    | allow h => exact (ih h).imp fun _ h => ⟨.allow h.1, h.2⟩
  | call _ _ ih =>
    cases h with
    | call hcall h => exact (ih _ h).imp fun _ h => ⟨.call hcall h.1, h.2⟩
    | callFault hcall => exact ⟨_, .callFault hcall, rfl⟩

/-- A call runs as what is called does, and then goes on. -/
theorem Plan.Run.enter {next : α → Plan β} {s : Stand} {x : Reading (β × Stand)}
    (h : (routine.plan.bind next).Run s x) :
    (Plan.call routine next).Run s x := by
  obtain ⟨y, hrun, hnext⟩ := h.exists_of_bind
  cases y with
  | ok result => exact .call hrun hnext
  | error fault =>
    cases hnext
    exact .callFault hrun

theorem Routine.Reads.mono {fewer : Nat} (h : routine.Reads budget bare read) (hle : fewer ≤ budget) :
    routine.Reads fewer bare read :=
  ⟨fun hts => h.run (Nat.le_trans hts hle)⟩

/-- The induction for a loop or a nesting: what it does first takes a token, so the others have a smaller budget. -/
theorem Routine.Reads.induct (read : Nat → Tokens → Reading (α × Tokens))
    (hnil : routine.plan.Run ⟨[], bare⟩ (under bare (read 0 [])))
    (hsucc : ∀ n, n + 1 ≤ budget → routine.Reads n bare (read n) →
      ∀ {ts}, ts.length ≤ n + 1 → routine.plan.Run ⟨ts, bare⟩ (under bare (read (n + 1) ts))) :
    routine.Reads budget bare (read budget) := by
  suffices ∀ n ≤ budget, routine.Reads n bare (read n) from this budget (Nat.le_refl _)
  intro n hn
  induction n with
  | zero =>
    refine ⟨fun hts => ?_⟩
    obtain rfl := List.eq_nil_of_length_eq_zero (Nat.le_zero.1 hts)
    exact hnil
  | succ n ih => exact ⟨hsucc n hn (ih (Nat.le_of_succ_le hn))⟩

theorem le_of_advances {rest : Tokens} {n : Nat} (hlt : true = true → rest.length < ts.length)
    (hts : ts.length ≤ n + 1) : rest.length ≤ n :=
  Nat.le_of_lt_succ (Nat.lt_of_lt_of_le (hlt rfl) hts)

instance (mark : Symbol) (expected : Expected) :
    (Routine.symbol mark expected).Reads budget bare (symbol mark expected) := by
  refine ⟨fun {ts} _ => .look ?_⟩
  rcases ts with _ | ⟨⟨kind, lexeme, loc⟩, ts⟩
  · exact .fault
  cases kind with
  | symbol found =>
    dsimp only [symbol]
    split
    · exact .advance .result
    · exact .fault
  | _ => exact .fault

instance (expected : Expected) : (Routine.identifier expected).Reads budget bare (identifier expected) := by
  refine ⟨fun {ts} _ => .look ?_⟩
  rcases ts with _ | ⟨⟨kind, lexeme, loc⟩, ts⟩
  · exact .fault
  cases kind with
  | identifier => exact .advance .result
  | _ => exact .fault

instance [h : routine.Reads budget bare read] (closer : Symbol) :
    (Routine.elements closer routine).Reads budget bare (commaList closer read budget) := by
  refine .induct _ ?_ fun n hn _ {ts} hts => .enter (.look ?_)
  · have := h.mono (Nat.zero_le _)
    refine .enter (.look (.bind (Nat.le_refl _) fun hrest _ => .look ?_))
    obtain rfl := List.eq_nil_of_length_eq_zero (Nat.le_zero.1 hrest)
    exact .result
  · have := h.mono hn
    unfold commaList
    dsimp only
    cases startsWith closer ts with
    | true => exact .result
    | false =>
      refine .bind hts fun {a rest} hrest _ => .look ?_
      rcases rest with _ | ⟨⟨kind, lexeme, loc⟩, rest⟩
      · exact .result
      cases kind with
      | symbol mark =>
        cases mark with
        | comma =>
          refine .advance ?_
          exact .bind (Nat.le_of_succ_le_succ hrest) fun _ _ => .result
        | _ => exact .result
      | _ => exact .result

/-- Names with marks between them are read as by the routine for them. -/
theorem ReadsNames.reads {separator : Symbol} {expected : Expected} {read : Tokens → Reading (List String × Tokens)}
    (h : ReadsNames separator expected read) : (Routine.names separator expected).Reads budget bare read := by
  refine .induct (fun _ => read) (.enter (.look ?_)) fun n _ _ {ts} hts => .enter (.look ?_)
  · rw [h.stop rfl]
    exact .result
  · dsimp only
    cases hmark : startsWith separator ts with
    | false =>
      rw [h.stop hmark]
      exact .result
    | true =>
      obtain ⟨_, _, ts, rfl⟩ := startsWith_eq_true_iff.1 hmark
      rw [h.goOn]
      refine .advance ?_
      refine .bind (Nat.le_of_succ_le_succ hts) fun hname _ => ?_
      exact .bind hname fun _ _ => .result

instance : (Routine.names .colonColon .nameAfterColons).Reads budget bare pathTail :=
  readsNames_pathTail.reads

instance : (Routine.names .dot .fieldName).Reads budget bare fieldChain :=
  readsNames_fieldChain.reads

instance [routine.Reads budget bare read] : (Routine.typeList routine).Reads budget bare (typeList read budget) := by
  refine ⟨fun {ts} hts => .look ?_⟩
  split
  · refine .advance (.advance ?_)
    refine .bind (Nat.le_of_succ_le (Nat.le_of_succ_le hts)) fun {first rest} hrest _ => .look ?_
    have hclose : (expect .rightParen .rightParen >>= fun _ => pure [first]).Run ⟨rest, bare⟩
        (under bare (symbol .rightParen .rightParen rest >>= fun closed => .ok ([first], closed.2))) :=
      .bind hrest fun _ _ => .result
    rcases rest with _ | ⟨⟨kind, lexeme, loc⟩, rest⟩
    · exact hclose
    cases kind with
    | symbol mark =>
      cases mark with
      | comma =>
        refine .advance ?_
        refine .bind (Nat.le_of_succ_le hrest) fun hothers _ => ?_
        exact .bind hothers fun _ _ => .result
      | _ => exact hclose
    | _ => exact hclose
  · rw [typeList]
    · exact .result
    · assumption

instance : Routine.path.Reads budget bare path := by
  refine ⟨fun hts => ?_⟩
  refine .bind hts fun hname _ => ?_
  exact .bind hname fun _ _ => .result

instance {type : Tokens → Reading (TypeExpr × Tokens)} [Routine.type.Reads budget bare type] :
    Routine.arrowType.Reads budget bare (arrowType type) := by
  refine ⟨fun {ts} hts => .look ?_⟩
  rcases ts with _ | ⟨⟨kind, lexeme, loc⟩, ts⟩
  · exact .result
  cases kind with
  | symbol mark =>
    cases mark with
    | arrow =>
      refine .advance ?_
      exact .bind (Nat.le_of_succ_le hts) fun _ _ => .result
    | _ => exact .result
  | _ => exact .result

instance : Routine.arrayEnd.Reads budget bare arrayEnd := by
  refine ⟨fun {ts} hts => .look ?_⟩
  rcases ts with _ | ⟨⟨kind, lexeme, loc⟩, ts⟩
  · exact .fault
  cases kind with
  | integer =>
    dsimp only [arrayEnd]
    split
    · exact .fault
    · refine .advance ?_
      exact .bind (Nat.le_of_succ_le hts) fun _ _ => .result
  | _ => exact .fault

instance : Routine.type.Reads budget bare (typeExpr budget) := by
  refine .induct _ (.look .fault) fun n _ _ {ts} hts => .look ?_
  rcases ts with _ | ⟨⟨kind, lexeme, loc⟩, ts⟩
  · exact .fault
  cases kind with
  | identifier =>
    refine .bind hts fun _ hpath => ?_
    exact .bind (le_of_advances hpath hts) fun _ _ => .result
  | symbol mark =>
    cases mark with
    | leftBracket =>
      refine .advance ?_
      refine .bind (Nat.le_of_succ_le_succ hts) fun helement _ => ?_
      refine .bind helement fun hsemicolon _ => ?_
      exact .bind hsemicolon fun _ _ => .result
    | _ => exact .fault
  | keyword word =>
    cases word with
    | fn =>
      refine .advance ?_
      refine .bind (Nat.le_of_succ_le_succ hts) fun hopen _ => ?_
      refine .bind hopen fun hparams _ => ?_
      refine .bind hparams fun hclose _ => ?_
      exact .bind hclose fun _ _ => .result
    | _ => exact .fault
  | _ => exact .fault

theorem withFlag_run [h : routine.Reads budget bare read] (hts : ts.length ≤ budget) (now : Bool) :
    (withFlag bare routine).Run ⟨ts, now⟩ (under now (read ts)) := by
  have hrun := h.run hts
  refine .flag (.allow ?_)
  cases hread : read ts with
  | error fault =>
    rw [hread] at hrun
    exact .callFault hrun
  | ok result =>
    rw [hread] at hrun
    exact .call hrun (.allow .result)

instance [routine.Reads budget true read] : (Routine.bracketed routine).Reads budget bare read :=
  ⟨fun hts => withFlag_run hts bare⟩

theorem chain_reads {operand : Tokens → Reading (Expr × Tokens)} {level : Nat} (left : Expr)
    (h : (Routine.tier level).Reads budget bare operand) :
    (Routine.chain level left).Reads budget bare (chain operand (5 - level) budget left) := by
  induction budget generalizing left with
  | zero =>
    refine ⟨fun hts => ?_⟩
    obtain rfl := List.eq_nil_of_length_eq_zero (Nat.le_zero.1 hts)
    exact .enter (.look .result)
  | succ budget ih =>
    refine ⟨fun {ts} hts => .enter (.look ?_)⟩
    unfold chain
    dsimp only
    cases hop : binaryOp? (5 - level) ts with
    | none => exact .result
    | some found =>
      obtain ⟨op, rest⟩ := found
      obtain ⟨_, loc, htakes⟩ := binaryOp?_eq_some_iff.1 hop
      cases htakes
      have h := h.mono (Nat.le_succ _)
      refine .advance ?_
      exact .bind (Nat.le_of_succ_le_succ hts) fun hright _ => .last ((ih _ h).run hright)

/-- The tiers of binary operators, with a budget for each loop. -/
theorem tiers_reads {operand : Tokens → Reading (Expr × Tokens)} (h : Routine.unary.Reads (budget + 1) bare operand)
    (level : Nat) : (Routine.tier level).Reads (budget + 1) bare (tiers operand budget level) := by
  induction level with
  | zero => exact ⟨fun hts => .last (h.run hts)⟩
  | succ level ih =>
    have hchain (left : Expr) := chain_reads left (ih.mono (Nat.le_succ _))
    refine ⟨fun hts => ?_⟩
    exact .bind hts fun _ hleft => .last ((hchain _).run (le_of_advances hleft hts))

instance {leaf : Tokens → Reading (Expr × Tokens)} [h : Routine.leaf.Reads budget bare leaf] :
    Routine.unary.Reads budget bare (unary leaf) := by
  refine .induct (fun _ => unary leaf) (.look (.last (h.run (Nat.zero_le _)))) fun n hn _ {ts} hts => .look ?_
  have hleaf := Plan.Run.last (h.run (Nat.le_trans hts hn))
  rcases ts with _ | ⟨⟨kind, lexeme, loc⟩, ts⟩
  · exact hleaf
  cases kind
  case symbol mark =>
    cases mark
    case and | minus | not | ampersand | star =>
      refine .advance ?_
      exact .bind (Nat.le_of_succ_le_succ hts) fun _ _ => .result
    all_goals exact hleaf
  all_goals exact hleaf

section

variable {expr : Tokens → Reading (Expr × Tokens)}

instance [Routine.expr.Reads budget bare expr] : Routine.fieldInit.Reads budget bare (fieldInit expr) := by
  refine ⟨fun hts => ?_⟩
  refine .bind hts fun hname _ => ?_
  refine .bind hname fun hcolon _ => ?_
  exact .bind hcolon fun _ _ => .result

instance [Routine.expr.Reads budget true expr] : Routine.initFields.Reads budget bare (initFields expr budget) := by
  refine ⟨fun hts => ?_⟩
  refine .bind hts fun hopen _ => ?_
  refine .bind hopen fun hfields _ => ?_
  exact .bind hfields fun _ _ => .result

end

section

variable {expr : Bool → Tokens → Reading (Expr × Tokens)} [∀ bare, Routine.expr.Reads budget bare (expr bare)]

theorem pathExpr_run {name lexeme : String} {loc : Location} (hts : ts.length ≤ budget) :
    Routine.pathExpr.plan.Run ⟨⟨.identifier name, lexeme, loc⟩ :: ts, bare⟩
      (under bare (path (⟨.identifier name, lexeme, loc⟩ :: ts) >>= fun result =>
        afterPath expr budget bare loc result.1 result.2)) := by
  have hts := Nat.succ_le_succ hts
  refine .look (.bind hts fun {path rest} _ hlt => .look ?_)
  have hrest := le_of_advances hlt hts
  rcases rest with _ | ⟨⟨kind, lexeme, loc⟩, rest⟩
  · exact .result
  cases kind with
  | symbol mark =>
    cases mark with
    | leftParen =>
      refine .bind hrest fun htypes _ => ?_
      refine .bind htypes fun hopen _ => ?_
      refine .bind hopen fun hargs _ => ?_
      exact .bind hargs fun _ _ => .result
    | leftBrace =>
      refine .flag ?_
      cases bare with
      | true => exact .bind hrest fun _ _ => .result
      | false => exact .result
    | dot =>
      dsimp only [afterPath]
      split
      · exact .result
      · exact .bind hrest fun _ _ => .result
    | _ => exact .result
  | _ => exact .result

instance : Routine.leaf.Reads (budget + 1) bare (leaf expr budget bare) := by
  refine ⟨fun {ts} hts => .look ?_⟩
  rcases ts with _ | ⟨⟨kind, lexeme, loc⟩, ts⟩
  · exact .fault
  have hrest := Nat.le_of_succ_le_succ hts
  cases kind with
  | identifier => exact .last (pathExpr_run hrest)
  | integer | float | string => exact .advance .result
  | symbol mark =>
    cases mark with
    | leftParen =>
      refine .advance ?_
      refine .bind hrest fun hinner _ => ?_
      exact .bind hinner fun _ _ => .result
    | _ => exact .fault
  | keyword word =>
    cases word with
    | trueValue | falseValue => exact .advance .result
    | init =>
      refine .advance ?_
      refine .bind hrest fun hpath _ => ?_
      exact .bind hpath fun _ _ => .result
    | _ => exact .fault

end

instance : Routine.expr.Reads budget bare (expr budget bare) := by
  induction budget generalizing bare with
  | zero =>
    refine ⟨fun hts => ?_⟩
    obtain rfl := List.eq_nil_of_length_eq_zero (Nat.le_zero.1 hts)
    exact .callFault (.callFault
      (.callFault (.callFault (.callFault (.callFault (.look (.callFault (.look .fault))))))))
  | succ budget ih => exact tiers_reads inferInstance 5

instance : Routine.condition.Reads budget bare (expr budget false) :=
  ⟨fun hts => withFlag_run hts bare⟩

instance : Routine.returned.Reads budget true (returned budget) := by
  refine ⟨fun {ts} hts => .look ?_⟩
  unfold returned
  dsimp only
  cases startsWith .semicolon ts with
  | true => exact .result
  | false => exact .bind hts fun _ _ => .result

theorem expressionOrAssign_run {kind : TokenKind} {lexeme : String} {loc : Location} (hts : ts.length + 1 ≤ budget) :
    Routine.expressionOrAssign.plan.Run ⟨⟨kind, lexeme, loc⟩ :: ts, true⟩
      (under true (expressionOrAssign budget loc (⟨kind, lexeme, loc⟩ :: ts))) := by
  refine .look (.bind hts fun {value rest} hvalue _ => .look ?_)
  rcases rest with _ | ⟨⟨kind, lexeme, loc⟩, rest⟩
  · exact .bind hvalue fun _ _ => .result
  cases kind with
  | symbol mark =>
    cases mark with
    | assign =>
      dsimp only
      cases assignTarget? value with
      | none => exact .fault
      | some =>
        refine .advance ?_
        refine .bind (Nat.le_of_succ_le hvalue) fun hassigned _ => ?_
        exact .bind hassigned fun _ _ => .result
    | _ => exact .bind hvalue fun _ _ => .result
  | _ => exact .bind hvalue fun _ _ => .result

section

variable {block : Tokens → Reading (Block Stmt × Tokens)} [hblock : Routine.block.Reads budget true block]
include hblock

instance (loc : Location) : (Routine.branch loc).Reads budget true (branch block budget loc) := by
  refine ⟨fun hts => ?_⟩
  refine .bind hts fun hcondition _ => ?_
  exact .bind hcondition fun _ _ => .result

instance : (Routine.gather .elifBranches).Reads budget true (elifBranches block budget budget) := by
  refine .induct (elifBranches block budget) (.enter (.look .result)) fun n hn _ {ts} hts => .enter (.look ?_)
  rcases ts with _ | ⟨⟨kind, lexeme, loc⟩, ts⟩
  · exact .result
  cases kind with
  | keyword word =>
    cases word with
    | elifBranch =>
      have : (Routine.branch loc).Reads budget true (branch block budget loc) := inferInstance
      have := this.mono (Nat.le_of_succ_le hn)
      refine .advance ?_
      refine .bind (Nat.le_of_succ_le_succ hts) fun hbranch _ => ?_
      exact .bind hbranch fun _ _ => .result
    | _ => exact .result
  | _ => exact .result

instance : Routine.elseBlock.Reads budget true (elseBlock block) := by
  refine ⟨fun {ts} hts => .look ?_⟩
  rcases ts with _ | ⟨⟨kind, lexeme, loc⟩, ts⟩
  · exact .result
  cases kind with
  | keyword word =>
    cases word with
    | elseBranch =>
      refine .advance ?_
      exact .bind (Nat.le_of_succ_le hts) fun _ _ => .result
    | _ => exact .result
  | _ => exact .result

instance : Routine.statement.Reads budget true (statement block budget) := by
  refine ⟨fun {ts} hts => .look ?_⟩
  rcases ts with _ | ⟨⟨kind, lexeme, loc⟩, ts⟩
  · exact .fault
  have hrest := Nat.le_of_succ_le hts
  cases kind with
  | keyword word =>
    cases word with
    | letBinding =>
      refine .advance ?_
      refine .bind hrest fun hname _ => ?_
      refine .bind hname fun hcolon _ => ?_
      refine .bind hcolon fun htype _ => ?_
      refine .bind htype fun hassign _ => ?_
      refine .bind hassign fun hvalue _ => ?_
      exact .bind hvalue fun _ _ => .result
    | ifBranch =>
      refine .advance ?_
      refine .bind hrest fun hfirst _ => ?_
      refine .bind hfirst fun hbranches _ => ?_
      exact .bind hbranches fun _ _ => .result
    | whileLoop | returnValue =>
      refine .advance ?_
      refine .bind hrest fun hvalue _ => ?_
      exact .bind hvalue fun _ _ => .result
    | breakLoop | continueLoop =>
      refine .advance ?_
      exact .bind hrest fun _ _ => .result
    | _ => exact .last (expressionOrAssign_run hts)
  | symbol mark =>
    cases mark with
    | leftBrace => exact .bind hts fun _ _ => .result
    | _ => exact .last (expressionOrAssign_run hts)
  | _ => exact .last (expressionOrAssign_run hts)

end

instance {statement : Tokens → Reading (Stmt × Tokens)} [h : Routine.statement.Reads budget true statement] :
    (Routine.gather .statements).Reads budget true (statements statement budget) := by
  refine .induct _ (.enter (.look .result)) fun n hn _ {ts} hts => .enter (.look ?_)
  have := h.mono hn
  unfold statements
  dsimp only
  cases ts.isEmpty || startsWith .rightBrace ts with
  | true => exact .result
  | false =>
    refine .bind hts fun _ hstatement => ?_
    exact .bind (le_of_advances hstatement hts) fun _ _ => .result

instance : Routine.block.Reads budget true (block budget) := by
  refine .induct _ (.callFault (.look .fault)) fun _ _ _ {_} hts => ?_
  refine .bind hts fun _ hopen => ?_
  refine .bind (le_of_advances hopen hts) fun hstatements _ => ?_
  exact .bind hstatements fun _ _ => .result

instance (expected : Expected) : (Routine.member expected).Reads budget true (member expected budget) := by
  refine ⟨fun hts => ?_⟩
  refine .bind hts fun hname _ => ?_
  refine .bind hname fun hcolon _ => ?_
  exact .bind hcolon fun _ _ => .result

instance : Routine.typeParam.Reads budget true typeParam :=
  ⟨fun hts => .bind hts fun _ _ => .result⟩

instance : Routine.header.Reads budget true (header budget) := by
  refine ⟨fun hts => ?_⟩
  refine .bind hts fun hname _ => ?_
  refine .bind hname fun htypes _ => ?_
  refine .bind htypes fun hopen _ => ?_
  refine .bind hopen fun hparams _ => ?_
  refine .bind hparams fun hclose _ => ?_
  exact .bind hclose fun _ _ => .result

instance : Routine.fnAfterBuiltin.Reads budget true fnAfterBuiltin := by
  refine ⟨fun {ts} _ => .look ?_⟩
  rcases ts with _ | ⟨⟨kind, lexeme, loc⟩, ts⟩
  · exact .fault
  cases kind with
  | keyword word =>
    cases word with
    | fn => exact .advance .result
    | _ => exact .fault
  | _ => exact .fault

instance : Routine.item.Reads budget true (item budget) := by
  refine ⟨fun {ts} hts => .look ?_⟩
  rcases ts with _ | ⟨⟨kind, lexeme, loc⟩, ts⟩
  · exact .fault
  have hrest := Nat.le_of_succ_le hts
  cases kind with
  | keyword word =>
    cases word with
    | use | fn =>
      refine .advance ?_
      refine .bind hrest fun hfirst _ => ?_
      exact .bind hfirst fun _ _ => .result
    | struct =>
      refine .advance ?_
      refine .bind hrest fun hname _ => ?_
      refine .bind hname fun hopen _ => ?_
      refine .bind hopen fun hfields _ => ?_
      exact .bind hfields fun _ _ => .result
    | opaqueType | builtin =>
      refine .advance ?_
      refine .bind hrest fun hfirst _ => ?_
      refine .bind hfirst fun hsecond _ => ?_
      exact .bind hsecond fun _ _ => .result
    | _ => exact .fault
  | _ => exact .fault

instance : Routine.moduleName.Reads budget true moduleName := by
  refine ⟨fun {ts} hts => .look ?_⟩
  rcases ts with _ | ⟨⟨kind, lexeme, loc⟩, ts⟩
  · exact .result
  cases kind with
  | keyword word =>
    cases word with
    | mod =>
      refine .advance ?_
      refine .bind (Nat.le_of_succ_le hts) fun hname _ => ?_
      exact .bind hname fun _ _ => .result
    | _ => exact .result
  | _ => exact .result

/-- The items with what is left after them, which is nothing. -/
def allItems (item : Tokens → Reading (Item × Tokens)) (budget : Nat) (ts : Tokens) : Reading (List Item × Tokens) :=
  items item budget ts >>= fun items => .ok (items, [])

theorem allItems_cons (item : Tokens → Reading (Item × Tokens)) (budget : Nat) (token : Token) (ts : Tokens) :
    allItems item (budget + 1) (token :: ts) = item (token :: ts) >>= fun first =>
      allItems item budget first.2 >>= fun others => .ok (first.1 :: others.1, others.2) := by
  simp [allItems, items]

instance {item : Tokens → Reading (Item × Tokens)} [h : Routine.item.Reads budget true item] :
    (Routine.gather .items).Reads budget true (allItems item budget) := by
  refine .induct _ (.enter (.look .result)) fun n hn _ {ts} hts => .enter (.look ?_)
  have := h.mono hn
  cases ts with
  | nil => exact .result
  | cons token ts =>
    rw [allItems_cons]
    refine .bind hts fun _ hitem => ?_
    exact .bind (le_of_advances hitem hts) fun _ _ => .result

/-- The parse functions and their loops come to what they do without a budget, wherever theirs covers the tokens. -/
structure Budgeted (budget : Nat) (bare : Bool) : Prop where
  type : Routine.type.Reads budget bare (typeExpr budget)
  expr : Routine.expr.Reads budget bare (expr budget bare)
  statement : Routine.statement.Reads budget true (statement (block budget) budget)
  block : Routine.block.Reads budget true (block budget)
  item : Routine.item.Reads budget true (item budget)
  path : (Routine.names .colonColon .nameAfterColons).Reads budget bare pathTail
  fields : (Routine.names .dot .fieldName).Reads budget bare fieldChain
  elements : ∀ {α : Type} (closer : Symbol) (element : Routine α) (read : Tokens → Reading (α × Tokens)),
    element.Reads budget bare read → (Routine.elements closer element).Reads budget bare (commaList closer read budget)
  operators : ∀ (level : Nat) (left : Expr) (operand : Tokens → Reading (Expr × Tokens)),
    (Routine.tier level).Reads budget bare operand →
      (Routine.chain level left).Reads budget bare (chain operand (5 - level) budget left)
  statements : (Routine.gather .statements).Reads budget true
    (statements (Parse.statement (Parse.block budget) budget) budget)
  items : (Routine.gather .items).Reads budget true (allItems (Parse.item budget) budget)

/-- With a budget that covers the tokens, every parse function reads as its routine runs. -/
theorem budgeted (budget : Nat) (bare : Bool) : Budgeted budget bare where
  type := inferInstance
  expr := inferInstance
  statement := inferInstance
  block := inferInstance
  item := inferInstance
  path := inferInstance
  fields := inferInstance
  elements _ _ _ _ := inferInstance
  operators _ left _ h := chain_reads left h
  statements := inferInstance
  items := inferInstance

/-- The name and the items of a file. -/
def sourceFile (ts : Tokens) : Reading ((Option String × List Item) × Tokens) := do
  let (name, rest) ← moduleName ts
  let (items, rest) ← allItems (item ts.length) ts.length rest
  .ok ((name, items), rest)

/-- A file is read as its routine runs. -/
theorem sourceFile_run (ts : Tokens) : Routine.file.plan.Run ⟨ts, true⟩ (under true (sourceFile ts)) := by
  refine .bind (Nat.le_refl _) fun hname _ => ?_
  exact .bind hname fun _ _ => .result

theorem eq_nil_of_sourceFile {result : Option String × List Item} {rest : Tokens}
    (h : sourceFile ts = .ok (result, rest)) : rest = [] := by
  simp only [sourceFile, allItems, bind_eq_ok_iff, Prod.exists] at h
  obtain ⟨_, _, _, _, _, ⟨_, _, hrest⟩, hok⟩ := h
  cases hrest
  cases hok
  rfl

end Parse

open Parse

theorem Module.ofTokens_eq (file : String) (stream : TokenStream) :
    Module.ofTokens file stream = sourceFile stream.tokens >>= fun result =>
      .ok ⟨(stream.tokens.head?.map (·.location)).getD stream.finish, result.1.1, result.1.2, file⟩ := by
  simp [Module.ofTokens, sourceFile, allItems]

/-- What a file is read as, or refused for, is what its parse comes to without a budget. -/
theorem Module.ofTokens_cases (file : String) (stream : TokenStream) :
    (∃ name items, Routine.file.plan.Run ⟨stream.tokens, true⟩ (.ok ((name, items), ⟨[], true⟩)) ∧
        Module.ofTokens file stream =
          .ok ⟨(stream.tokens.head?.map (·.location)).getD stream.finish, name, items, file⟩) ∨
      ∃ fault, Routine.file.plan.Run ⟨stream.tokens, true⟩ (.error fault) ∧
        Module.ofTokens file stream = .error fault := by
  have hrun := sourceFile_run stream.tokens
  rw [Module.ofTokens_eq]
  cases hread : sourceFile stream.tokens with
  | error fault =>
    rw [hread] at hrun
    exact .inr ⟨fault, hrun, rfl⟩
  | ok result =>
    obtain ⟨⟨name, items⟩, rest⟩ := result
    cases eq_nil_of_sourceFile hread
    rw [hread] at hrun
    exact .inl ⟨name, items, hrun, rfl⟩

/-- The parser stops. From wherever it stands, each of its functions comes to one end without any budget, and keeps
    to its tokens and to the flag. With a budget that covers the tokens it comes to the same, and so a file is read
    as a module, with no token left, or refused at one of its tokens or at its end. The depth to which the functions
    call each other is not modelled: an interpreter that bounds its stack may give up before that end. -/
theorem Module.ofTokens_runs (file : String) (stream : TokenStream) :
    (∀ {α : Type} (routine : Routine α) (s : Stand),
      ∃ x, routine.plan.Run s x ∧ (∀ y, routine.plan.Run s y → y = x) ∧ routine.Keeps s x) ∧
    (∀ budget bare, Budgeted budget bare) ∧
    (∀ {α : Type} (routine : Routine α) budget bare read, routine.Reads budget bare read →
      ∀ ts a rest, ts.length ≤ budget → read ts = .ok (a, rest) →
        rest <:+ ts ∧ (routine.advances a = true → rest.length < ts.length)) ∧
    ((∃ name items, Routine.file.plan.Run ⟨stream.tokens, true⟩ (.ok ((name, items), ⟨[], true⟩)) ∧
        Module.ofTokens file stream =
          .ok ⟨(stream.tokens.head?.map (·.location)).getD stream.finish, name, items, file⟩) ∨
      ∃ fault, Routine.file.plan.Run ⟨stream.tokens, true⟩ (.error fault) ∧
        Module.ofTokens file stream = .error fault ∧ fault.rest <:+ stream.tokens) := by
  refine ⟨fun routine s => ?_, budgeted, fun routine _ bare _ _ _ _ _ hts hread => ?_, ?_⟩
  · obtain ⟨x, hrun, hkeeps⟩ := routine.exists_run s
    exact ⟨x, hrun, fun _ hy => hy.unique hrun, hkeeps⟩
  · exact routine.suffix_of_reads bare hts hread
  · refine (Module.ofTokens_cases file stream).imp_right fun ⟨fault, hrun, hfault⟩ => ⟨fault, hrun, hfault, ?_⟩
    obtain ⟨x, hx, hkeeps⟩ := Routine.file.exists_run ⟨stream.tokens, true⟩
    cases hx.unique hrun
    exact hkeeps

end Smpl
