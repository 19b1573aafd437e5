import Smpl.Backend.Registry
import Smpl.Proofs.Relocate.Outcome
import Smpl.Proofs.Syntax.Induction

namespace Smpl

variable {move : Location → Location}

theorem printTypes_relocate {types : List TypeExpr}
    (h : ∀ type ∈ types, (type.relocate move).print = relocateOutcome move id type.print) :
    printTypes (relocateTypes move types) = relocateOutcome move id (printTypes types) :=
  forall_mem_induct types h rfl fun _ _ hfirst ih => bind_relocate hfirst fun _ => bind_relocate ih fun _ => rfl

theorem TypeExpr.print_relocate (type : TypeExpr) :
    (type.relocate move).print = relocateOutcome move id type.print := by
  induction type using TypeExpr.induct with
  | named loc path args ih => exact bind_relocate (printTypes_relocate ih) fun _ => rfl
  | array loc element length ih => exact bind_relocate ih fun _ => rfl
  | function loc params result ih ihResult =>
    rw [TypeExpr.relocate, TypeExpr.print, TypeExpr.print]
    refine bind_relocate (printTypes_relocate ih) fun params => ?_
    have hresult : printResult (relocateResult move result) = relocateOutcome move id (printResult result) := by
      cases result with
      | none => rfl
      | some type => exact bind_relocate (ihResult type rfl) fun _ => rfl
    exact bind_relocate hresult fun _ => rfl
  | unknown node => rfl

theorem printExprs_relocate {exprs : List Expr}
    (h : ∀ e ∈ exprs, ∀ needed, (e.relocate move).print needed = relocateOutcome move id (e.print needed)) :
    printExprs (relocateExprs move exprs) = relocateOutcome move id (printExprs exprs) :=
  forall_mem_induct exprs h rfl fun _ _ hfirst ih => bind_relocate (hfirst 0) fun _ => bind_relocate ih fun _ => rfl

theorem printInits_relocate {inits : List (FieldInit Expr)}
    (h : ∀ init ∈ inits, ∀ needed, (init.value.relocate move).print needed =
      relocateOutcome move id (init.value.print needed)) :
    printInits (relocateInits move inits) = relocateOutcome move id (printInits inits) :=
  forall_mem_induct inits h rfl fun _ _ hfirst ih => bind_relocate (hfirst 0) fun _ => bind_relocate ih fun _ => rfl

theorem Expr.print_relocate (e : Expr) (needed : Int) :
    (e.relocate move).print needed = relocateOutcome move id (e.print needed) := by
  induction e using Expr.induct generalizing needed with
  | literal loc value => rfl
  | binding loc path => rfl
  | field loc root fields => rfl
  | call loc callee typeArgs args ih =>
    refine bind_relocate (printTypes_relocate fun type _ => type.print_relocate) fun types => ?_
    exact bind_relocate (printExprs_relocate ih) fun _ => rfl
  | init loc struct fields ih => exact bind_relocate (printInits_relocate ih) fun _ => rfl
  | unary loc op operand ih => exact bind_relocate (ih UnaryOp.precedence) fun _ => rfl
  | binary loc op left right ihLeft ihRight =>
    refine bind_relocate (ihLeft op.precedence) fun left => ?_
    exact bind_relocate (ihRight (op.precedence + 1)) fun _ => rfl
  | paren loc inner ih => exact bind_relocate (ih 0) fun _ => rfl
  | operatorless loc operands ih =>
    match operands with
    | [] => rfl
    | [operand] => exact bind_relocate (ih operand List.mem_cons_self UnaryOp.precedence) fun _ => rfl
    | _ :: _ :: _ => rfl
  | unknown node => rfl

theorem printBlock_relocate_of_forall {body : Block Stmt}
    (h : ∀ stmt ∈ body.statements, (stmt.relocate move).print = relocateOutcome move id stmt.print) :
    printBlock (relocateBlock move body) = relocateOutcome move id (printBlock body) := by
  obtain ⟨loc, stmts⟩ := body
  have hstmts : printStmts (relocateStmts move stmts) = relocateOutcome move id (printStmts stmts) :=
    forall_mem_induct stmts h rfl fun _ _ hfirst ih => bind_relocate hfirst fun _ => bind_relocate ih fun _ => rfl
  exact bind_relocate hstmts fun _ => rfl

theorem printBranches_relocate_of_forall {branches : List (Branch Expr Stmt)}
    (h : ∀ branch ∈ branches, ∀ stmt ∈ branch.body.statements, (stmt.relocate move).print =
      relocateOutcome move id stmt.print) (opening : String) :
    printBranches opening (relocateBranches move branches) =
      relocateOutcome move id (printBranches opening branches) := by
  induction branches generalizing opening with
  | nil => rfl
  | cons branch branches ih =>
    obtain ⟨hfirst, hothers⟩ := List.forall_mem_cons.1 h
    rw [relocateBranches, printBranches, printBranches]
    refine bind_relocate (branch.condition.print_relocate 0) fun condition => ?_
    refine bind_relocate (printBlock_relocate_of_forall hfirst) fun lines => ?_
    exact bind_relocate (ih hothers _) fun _ => rfl

theorem Stmt.print_relocate (stmt : Stmt) : (stmt.relocate move).print = relocateOutcome move id stmt.print := by
  induction stmt using Stmt.induct with
  | block body ih => exact bind_relocate (printBlock_relocate_of_forall ih) fun _ => rfl
  | letBinding loc name type value =>
    exact bind_relocate type.print_relocate fun _ => bind_relocate (value.print_relocate 0) fun _ => rfl
  | assign loc target fields value => exact bind_relocate (value.print_relocate 0) fun _ => rfl
  | ifChain loc branches otherwise ih ihElse =>
    rw [Stmt.relocate, Stmt.print, Stmt.print]
    refine bind_relocate (printBranches_relocate_of_forall ih _) fun lines => ?_
    have helse : printElse (relocateElse move otherwise) = relocateOutcome move id (printElse otherwise) := by
      cases otherwise with
      | none => rfl
      | some body => exact bind_relocate (printBlock_relocate_of_forall (ihElse body rfl)) fun _ => rfl
    exact bind_relocate helse fun _ => rfl
  | whileLoop loc condition body ih =>
    rw [Stmt.relocate, Stmt.print, Stmt.print]
    refine bind_relocate (condition.print_relocate 0) fun condition => ?_
    exact bind_relocate (printBlock_relocate_of_forall ih) fun _ => rfl
  | returnValue loc value =>
    cases value with
    | none => rfl
    | some value => exact bind_relocate (value.print_relocate 0) fun _ => rfl
  | breakLoop loc => rfl
  | continueLoop loc => rfl
  | expression loc value => exact bind_relocate (value.print_relocate 0) fun _ => rfl
  | unknown node => cases node <;> rfl

theorem mapM_print_relocate (members : List (Member TypeExpr)) :
    (members.map (Member.relocate move (TypeExpr.relocate move))).mapM Member.print =
      relocateOutcome move id (members.mapM Member.print) := by
  apply mapM_relocate_id
  intro member _
  exact bind_relocate member.type.print_relocate fun _ => rfl

theorem Header.print_relocate (header : Header TypeExpr) :
    (header.relocate move (TypeExpr.relocate move)).print = relocateOutcome move id header.print := by
  rw [Header.print, Header.print]
  refine bind_relocate (mapM_print_relocate header.params) fun params => ?_
  have hresult : printResult (header.result.map (TypeExpr.relocate move)) =
      relocateOutcome move id (printResult header.result) := by
    cases header.result with
    | none => rfl
    | some type => exact bind_relocate type.print_relocate fun _ => rfl
  exact bind_relocate hresult fun _ => rfl

/-- A moved item is printed as it was. -/
theorem Item.print_relocate (item : Item) : (item.relocate move).print = relocateOutcome move id item.print := by
  cases item with
  | struct loc name fields =>
    cases fields with
    | nil => rfl
    | cons field fields => exact bind_relocate (mapM_print_relocate (field :: fields)) fun _ => rfl
  | function loc header body =>
    refine bind_relocate header.print_relocate fun header => ?_
    exact bind_relocate (printBlock_relocate_of_forall fun stmt _ => stmt.print_relocate) fun _ => rfl
  | builtin loc header => exact bind_relocate header.print_relocate fun _ => rfl
  | use | opaqueType | other => rfl

/-- The canonical text of a module says nothing about places. -/
theorem Module.print_relocate (module_ : Module) :
    (module_.relocate move).print = relocateOutcome move id module_.print := by
  rw [Module.print, Module.print]
  exact bind_relocate (mapM_relocate_id fun item _ => item.print_relocate) fun _ => rfl

/-- Moved modules have the same canonical text. -/
theorem Canonical.texts_relocate (modules : List Module) :
    Canonical.texts (modules.map (Module.relocate move)) = relocateOutcome move id (Canonical.texts modules) := by
  rw [Canonical.texts, Canonical.texts]
  exact bind_relocate (mapM_relocate_id fun module_ _ => module_.print_relocate) fun _ => rfl

end Smpl
