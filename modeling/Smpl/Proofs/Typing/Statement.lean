import Smpl.Proofs.Checker.Stmt
import Smpl.Proofs.Typing.Expression

namespace Smpl

open List

namespace Scope

variable {scope : Scope} {inLoop : Bool}

@[simp] theorem vars_push (scope : Scope) : scope.push.vars = scope.vars := by
  funext name
  rw [vars, vars, lookup_push]

theorem vars_cons (symbol : Local) (scope : Scope) :
    (Scope.mk (symbol :: scope.current) scope.outer).vars =
      Function.update scope.vars symbol.name (some symbol.type) := by
  funext name
  rw [vars, lookup_mk_cons, Function.update_apply, vars]
  split <;> rfl

end Scope

namespace Context

variable {ctx : Context}

/-- Checking statements succeeds exactly where the rules admit them. -/
def AgreesOn (ctx : Context) (stmts : List Stmt) : Prop :=
  ∀ (inLoop : Bool) (scope : Scope), (∃ outs, ctx.stmts inLoop scope stmts = .ok outs) ↔
    Admits ctx.site ctx.result inLoop scope.vars (scope.current.map (·.name)) stmts

theorem AgreesOn.block {body : Block Stmt} (h : ctx.AgreesOn body.statements) :
    (∃ out, ctx.block inLoop scope body = .ok out) ↔
      Admits ctx.site ctx.result inLoop scope.vars [] body.statements := by
  have hpush := h inLoop scope.push
  rw [Scope.vars_push] at hpush
  refine Iff.trans ?_ hpush
  simp only [block_eq_ok_iff]
  constructor
  · rintro ⟨out, hstmts, _⟩
    exact ⟨_, hstmts⟩
  · rintro ⟨outs, hstmts⟩
    exact ⟨⟨body.loc, outs⟩, hstmts, rfl⟩

/-- Statements are right exactly if the first one is and those after it are, in the scope that it leaves. -/
theorem exists_stmts_cons_iff {stmt : Stmt} {rest : List Stmt} :
    (∃ outs, ctx.stmts inLoop scope (stmt :: rest) = .ok outs) ↔
      ∃ out scope', ctx.ChecksStmt inLoop scope stmt out scope' ∧
        ∃ others, ctx.stmts inLoop scope' rest = .ok others := by
  simp only [stmts_cons_eq_ok_iff]
  constructor
  · rintro ⟨_, out, scope', others, hstmt, hrest, rfl⟩
    exact ⟨out, scope', hstmt, others, hrest⟩
  · rintro ⟨out, scope', hstmt, others, hrest⟩
    exact ⟨_, out, scope', others, hstmt, hrest, rfl⟩

namespace Knows

variable (h : ctx.Knows)
include h

theorem hasType_of_expr {e : Expr} {out : TypedExpr} (hexpr : ctx.expr scope e = .ok out) :
    HasType ctx.site scope.vars e out.type :=
  (h.agrees e out.type).1 ⟨out, hexpr, rfl⟩

theorem ifChain_iff {loc : Location} {branches : List (Branch Expr Stmt)}
    {otherwise : Option (Block Stmt)}
    (hblocks : ∀ body ∈ (Stmt.ifChain loc branches otherwise).blocks, ctx.AgreesOn body.statements) :
    ((∃ outs, Forall₂ (ctx.ChecksBranch inLoop scope) branches outs) ∧
      ∃ out, Option.Rel (fun body checked => ctx.block inLoop scope body = .ok checked) otherwise out) ↔
      (∀ branch ∈ branches, HasType ctx.site scope.vars branch.condition .bool) ∧
      (∀ branch ∈ branches, Admits ctx.site ctx.result inLoop scope.vars [] branch.body.statements) ∧
      ∀ body ∈ otherwise, Admits ctx.site ctx.result inLoop scope.vars [] body.statements := by
  have hbranches : ∀ branch ∈ branches, ctx.AgreesOn branch.body.statements :=
    fun branch hbranch => hblocks _ (mem_append_left _ (mem_map_of_mem hbranch))
  have hotherwise : ∀ body ∈ otherwise, ctx.AgreesOn body.statements :=
    fun body hbody => hblocks body (mem_append_right _ (Option.mem_toList.2 hbody))
  constructor
  · rintro ⟨⟨outs, houts⟩, out, hout⟩
    refine ⟨fun branch hbranch => ?_, fun branch hbranch => ?_, fun body hbody => ?_⟩
    · obtain ⟨checked, _, hchecked⟩ := exists_of_forall₂_of_mem houts hbranch
      exact hchecked.type ▸ h.hasType_of_expr hchecked.condition
    · obtain ⟨checked, _, hchecked⟩ := exists_of_forall₂_of_mem houts hbranch
      exact (hbranches branch hbranch).block.1 ⟨_, hchecked.body⟩
    · obtain rfl : otherwise = some body := hbody
      cases hout with
      | some hblock => exact (hotherwise body rfl).block.1 ⟨_, hblock⟩
  · rintro ⟨hconditions, hbodies, hrest⟩
    refine ⟨exists_forall₂ fun branch hbranch => ?_, ?_⟩
    · obtain ⟨condition, hcondition, htype⟩ := (h.agrees branch.condition .bool).2 (hconditions branch hbranch)
      obtain ⟨body, hbody⟩ := (hbranches branch hbranch).block.2 (hbodies branch hbranch)
      exact ⟨⟨branch.loc, condition, body⟩, rfl, hcondition, htype, hbody⟩
    · cases otherwise with
      | none => exact ⟨none, .none⟩
      | some body =>
        obtain ⟨out, hout⟩ := (hotherwise body rfl).block.2 (hrest body rfl)
        exact ⟨some out, .some hout⟩

/-- Checking statements succeeds exactly where the rules admit them. -/
theorem agreesOn (stmts : List Stmt) : ctx.AgreesOn stmts := by
  induction stmts using Stmt.inductList with
  | nil => exact fun _ _ => ⟨fun _ => .nil, fun _ => ⟨[], rfl⟩⟩
  | cons stmt rest hblocks hrest =>
    intro inLoop scope
    rw [exists_stmts_cons_iff]
    constructor
    · rintro ⟨_, _, hstmt, hothers⟩
      have hlater := (hrest _ _).1 hothers
      cases hstmt with
      | block hblock => exact .block ((hblocks _ mem_cons_self).block.1 ⟨_, hblock⟩) hlater
      | letBinding hresolve hvalue htype hname =>
        rw [Scope.vars_cons] at hlater
        have hdenotes := (h.typeScope.agrees _ _).1 ⟨_, hresolve, rfl⟩
        exact .letBinding hdenotes (htype ▸ h.hasType_of_expr hvalue) hname hlater
      | assign hlookup hchain hvalue =>
        exact .assign (vars_eq_some_iff.2 ⟨_, hlookup, rfl⟩) (h.chainType_eq_ok_iff.1 hchain)
          (h.hasType_of_expr hvalue) hlater
      | ifChain houts hout =>
        obtain ⟨hconditions, hbodies, hlast⟩ := (h.ifChain_iff hblocks).1 ⟨⟨_, houts⟩, _, hout⟩
        exact .ifChain hconditions hbodies hlast hlater
      | whileLoop hcondition htype hblock =>
        exact .whileLoop (htype ▸ h.hasType_of_expr hcondition)
          ((hblocks _ mem_cons_self).block.1 ⟨_, hblock⟩) hlater
      | returnNothing hresult => exact .returnNothing hresult hlater
      | returnValue hresult hvalue htype => exact .returnValue hresult (htype ▸ h.hasType_of_expr hvalue) hlater
      | breakLoop hloop =>
        subst hloop
        exact .breakLoop hlater
      | continueLoop hloop =>
        subst hloop
        exact .continueLoop hlater
      | expression hvalue => exact .expression (h.hasType_of_expr hvalue) hlater
    · intro hadmits
      cases hadmits with
      | block hinner hlater =>
        obtain ⟨out, hout⟩ := (hblocks _ mem_cons_self).block.2 hinner
        exact ⟨_, _, .block hout, (hrest _ _).2 hlater⟩
      | letBinding hdenotes hvalue hname hlater =>
        obtain ⟨resolved, hresolve, rfl⟩ := (h.typeScope.agrees _ _).2 hdenotes
        obtain ⟨out, hout, htype⟩ := (h.agrees _ _).2 hvalue
        refine ⟨_, _, .letBinding hresolve hout htype hname, (hrest _ _).2 ?_⟩
        rw [Scope.vars_cons]
        exact hlater
      | assign htarget hreaches hvalue hlater =>
        obtain ⟨symbol, hlookup, rfl⟩ := vars_eq_some_iff.1 htarget
        obtain ⟨out, hout, rfl⟩ := (h.agrees _ _).2 hvalue
        exact ⟨_, _, .assign hlookup (h.chainType_eq_ok_iff.2 hreaches) hout, (hrest _ _).2 hlater⟩
      | ifChain hconditions hbodies hlast hlater =>
        obtain ⟨⟨outs, houts⟩, out, hout⟩ := (h.ifChain_iff hblocks).2 ⟨hconditions, hbodies, hlast⟩
        exact ⟨_, _, .ifChain houts hout, (hrest _ _).2 hlater⟩
      | whileLoop hcondition hinner hlater =>
        obtain ⟨out, hout, htype⟩ := (h.agrees _ _).2 hcondition
        obtain ⟨block, hblock⟩ := (hblocks _ mem_cons_self).block.2 hinner
        exact ⟨_, _, .whileLoop hout htype hblock, (hrest _ _).2 hlater⟩
      | returnNothing hresult hlater => exact ⟨_, _, .returnNothing hresult, (hrest _ _).2 hlater⟩
      | returnValue hresult hvalue hlater =>
        obtain ⟨out, hout, htype⟩ := (h.agrees _ _).2 hvalue
        exact ⟨_, _, .returnValue hresult hout htype, (hrest _ _).2 hlater⟩
      | breakLoop hlater => exact ⟨_, _, .breakLoop rfl, (hrest _ _).2 hlater⟩
      | continueLoop hlater => exact ⟨_, _, .continueLoop rfl, (hrest _ _).2 hlater⟩
      | expression hvalue hlater =>
        obtain ⟨out, hout, _⟩ := (h.agrees _ _).2 hvalue
        exact ⟨_, _, .expression hout, (hrest _ _).2 hlater⟩

end Knows

end Context

end Smpl
