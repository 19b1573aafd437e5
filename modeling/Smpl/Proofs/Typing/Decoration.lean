import Smpl.Proofs.Checker.Erase
import Smpl.Proofs.Typing.Statement

namespace Smpl

open List

namespace TypedStmt

/-- What is in reach after a statement. -/
def binds (vars : Vars) : TypedStmt → Vars
  | .letBinding symbol _ _ => Function.update vars symbol.name (some symbol.type)
  | _ => vars

/-- An expression somewhere in checked statements, with what is in reach where the statements begin
    and where the expression stands. -/
inductive Holds : Vars → List TypedStmt → Vars → TypedExpr → Prop
  | here {vars : Vars} {stmt : TypedStmt} {rest : List TypedStmt} {value e : TypedExpr} :
    value ∈ stmt.expressions → e.PartOf value → Holds vars (stmt :: rest) vars e
  | inside {vars vars' : Vars} {stmt : TypedStmt} {rest : List TypedStmt} {body : Block TypedStmt} {e : TypedExpr} :
    body ∈ stmt.blocks → Holds vars body.statements vars' e → Holds vars (stmt :: rest) vars' e
  | later {vars vars' : Vars} {stmt : TypedStmt} {rest : List TypedStmt} {e : TypedExpr} :
    Holds (stmt.binds vars) rest vars' e → Holds vars (stmt :: rest) vars' e

end TypedStmt

namespace Context

variable {ctx : Context} {inLoop : Bool} {scope : Scope}

/-- Every part of a checked expression was checked itself, in the same scope. -/
theorem exists_expr_of_partOf {part out : TypedExpr} (hpart : part.PartOf out) {e : Expr}
    (h : ctx.expr scope e = .ok out) : ∃ e', ctx.expr scope e' = .ok part := by
  induction hpart generalizing e with
  | whole => exact ⟨e, h⟩
  | argument hmem _ ih =>
    cases expr_eq_ok_iff.1 h with
    | call _ houts =>
      obtain ⟨arg, _, harg⟩ := (mem_of_mapM_eq_ok houts).1 hmem
      exact ih harg
  | field hmem _ ih =>
    cases expr_eq_ok_iff.1 h with
    | init _ _ houts =>
      obtain ⟨field, _, hfield⟩ := exists_of_forall₂_of_mem houts.flip hmem
      exact ih hfield.value
  | operand _ ih =>
    cases expr_eq_ok_iff.1 h with
    | unary hoperand => exact ih hoperand
  | left _ ih =>
    cases expr_eq_ok_iff.1 h with
    | binary hleft _ => exact ih hleft
  | right _ ih =>
    cases expr_eq_ok_iff.1 h with
    | binary _ hright => exact ih hright
  | inner _ ih =>
    cases expr_eq_ok_iff.1 h with
    | paren hinner => exact ih hinner

namespace ChecksStmt

variable {stmt : Stmt} {out : TypedStmt} {scope' : Scope} (h : ctx.ChecksStmt inLoop scope stmt out scope')
include h

theorem exists_expr {value : TypedExpr} (hvalue : value ∈ out.expressions) : ∃ e, ctx.expr scope e = .ok value := by
  cases h with
  | block | returnNothing | breakLoop | continueLoop => cases hvalue
  | letBinding _ hexpr | assign _ _ hexpr | whileLoop hexpr | returnValue _ hexpr | expression hexpr =>
    obtain rfl := mem_singleton.1 hvalue
    exact ⟨_, hexpr⟩
  | ifChain houts _ =>
    obtain ⟨branch, hbranch, rfl⟩ := mem_map.1 hvalue
    obtain ⟨_, _, hchecks⟩ := exists_of_forall₂_of_mem houts.flip hbranch
    exact ⟨_, hchecks.condition⟩

theorem exists_block {body : Block TypedStmt} (hbody : body ∈ out.blocks) :
    ∃ inLoop written, ctx.block inLoop scope written = .ok body := by
  cases h with
  | letBinding | assign | returnNothing | returnValue | breakLoop | continueLoop | expression => cases hbody
  | block hblock | whileLoop _ _ hblock =>
    obtain rfl := mem_singleton.1 hbody
    exact ⟨_, _, hblock⟩
  | ifChain houts hlast =>
    rcases mem_append.1 hbody with hbody | hbody
    · obtain ⟨branch, hbranch, rfl⟩ := mem_map.1 hbody
      obtain ⟨_, _, hchecks⟩ := exists_of_forall₂_of_mem houts.flip hbranch
      exact ⟨_, _, hchecks.body⟩
    · cases hlast with
      | none => cases hbody
      | some hblock =>
        obtain rfl := mem_singleton.1 hbody
        exact ⟨_, _, hblock⟩

theorem vars_eq : scope'.vars = out.binds scope.vars := by
  cases h with
  | letBinding => exact Scope.vars_cons _ _
  | _ => rfl

end ChecksStmt

/-- Every expression in checked statements was checked, in a scope with the types that are in reach. -/
theorem exists_expr_of_holds {vars vars' : Vars} {outs : List TypedStmt} {e : TypedExpr}
    (hholds : TypedStmt.Holds vars outs vars' e) {stmts : List Stmt} (hvars : scope.vars = vars)
    (h : ctx.stmts inLoop scope stmts = .ok outs) :
    ∃ scope' e', scope'.vars = vars' ∧ ctx.expr scope' e' = .ok e := by
  induction hholds generalizing inLoop scope stmts with
  | here hvalue hpart =>
    cases stmts with
    | nil => cases h
    | cons stmt rest =>
      obtain ⟨_, _, _, hstmt, _, heq⟩ := stmts_cons_eq_ok_iff.1 h
      cases heq
      obtain ⟨written, hwritten⟩ := hstmt.exists_expr hvalue
      obtain ⟨e', he'⟩ := exists_expr_of_partOf hpart hwritten
      exact ⟨scope, e', hvars, he'⟩
  | inside hbody _ ih =>
    cases stmts with
    | nil => cases h
    | cons stmt rest =>
      obtain ⟨_, _, _, hstmt, _, heq⟩ := stmts_cons_eq_ok_iff.1 h
      cases heq
      obtain ⟨_, written, hwritten⟩ := hstmt.exists_block hbody
      exact ih ((Scope.vars_push scope).trans hvars) (block_eq_ok_iff.1 hwritten).1
  | later _ ih =>
    cases stmts with
    | nil => cases h
    | cons stmt rest =>
      obtain ⟨_, _, _, hstmt, hrest, heq⟩ := stmts_cons_eq_ok_iff.1 h
      cases heq
      exact ih (hvars ▸ hstmt.vars_eq) hrest

/-- The type that an expression carries after the check is the only one that the rules give it. -/
theorem Knows.hasType_iff_of_expr (h : ctx.Knows) {e : Expr} {out : TypedExpr} (he : ctx.expr scope e = .ok out)
    {type : Ty} : HasType ctx.site scope.vars out.erase type ↔ type = out.type := by
  rw [erase_of_expr e he, ← h.agrees e type]
  constructor
  · rintro ⟨out', hout', rfl⟩
    rw [Except.ok.inj (hout'.symm.trans he)]
  · rintro rfl
    exact ⟨out, he, rfl⟩

end Context

end Smpl
