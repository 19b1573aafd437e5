import Smpl.Proofs.Relocate.Tree
import Smpl.Proofs.Syntax.Induction
import Smpl.Syntax.Shape

namespace Smpl

/-- Lists agree place by place exactly if a map that takes agreeing elements, and no others, together gives one list
    for both. -/
theorem sameLists_iff {α β : Type} {same : α → α → Bool} {g : α → β} {as bs : List α}
    (h : ∀ a ∈ as, ∀ b, same a b = true ↔ g a = g b) : sameLists same as bs = true ↔ as.map g = bs.map g := by
  induction as generalizing bs with
  | nil => cases bs <;> simp [sameLists]
  | cons a as ih =>
    obtain ⟨hfirst, hothers⟩ := List.forall_mem_cons.1 h
    cases bs with
    | nil => simp [sameLists]
    | cons b bs => simp [sameLists, hfirst b, ih hothers]

/-- The lists inside a tree are compared as all lists are. -/
theorem eq_sameLists_of_cons {α : Type} {same : α → α → Bool} {walk : List α → List α → Bool} {as bs : List α}
    (hnil : walk [] [] = true) (hleft : ∀ a as, walk (a :: as) [] = false) (hright : ∀ b bs, walk [] (b :: bs) = false)
    (hcons : ∀ a as b bs, walk (a :: as) (b :: bs) = (same a b && walk as bs)) : walk as bs = sameLists same as bs := by
  induction as generalizing bs with
  | nil => cases bs <;> simp [sameLists, hnil, hright]
  | cons a as ih => cases bs <;> simp [sameLists, hleft, hcons, ih]

theorem sameTypes_eq_sameLists (types types' : List TypeExpr) :
    sameTypes types types' = sameLists TypeExpr.same types types' :=
  eq_sameLists_of_cons rfl (fun _ _ => rfl) (fun _ _ => rfl) fun _ _ _ _ => rfl

theorem sameExprs_eq_sameLists (exprs exprs' : List Expr) :
    sameExprs exprs exprs' = sameLists Expr.same exprs exprs' :=
  eq_sameLists_of_cons rfl (fun _ _ => rfl) (fun _ _ => rfl) fun _ _ _ _ => rfl

theorem sameInits_eq_sameLists (inits inits' : List (FieldInit Expr)) :
    sameInits inits inits' =
      sameLists (fun init init' => decide (init.name = init'.name) && init.value.same init'.value) inits inits' :=
  eq_sameLists_of_cons rfl (fun _ _ => rfl) (fun _ _ => rfl) fun _ _ _ _ => rfl

theorem sameStmts_eq_sameLists (stmts stmts' : List Stmt) :
    sameStmts stmts stmts' = sameLists Stmt.same stmts stmts' := by
  apply eq_sameLists_of_cons <;> intros <;> simp only [sameStmts]

theorem sameBranches_eq_sameLists (branches branches' : List (Branch Expr Stmt)) :
    sameBranches branches branches' =
      sameLists (fun branch branch' => branch.condition.same branch'.condition && sameBlock branch.body branch'.body)
        branches branches' := by
  apply eq_sameLists_of_cons
  case hcons => exact fun _ _ _ _ => by rw [sameBranches]
  all_goals simp [sameBranches]

section

variable (place : Location)

theorem Foreign.same_iff (node node' : Foreign) :
    node.same node' = true ↔ node.relocate (fun _ => place) = node'.relocate fun _ => place := by
  cases node <;> cases node' <;> simp [same, relocate]

theorem sameType?_iff_of_mem {result : Option TypeExpr} (h : ∀ type ∈ result, ∀ type', type.same type' = true ↔
      type.relocate (fun _ => place) = type'.relocate fun _ => place) (result' : Option TypeExpr) :
    sameType? result result' = true ↔
      result.map (TypeExpr.relocate fun _ => place) = result'.map (TypeExpr.relocate fun _ => place) := by
  cases result with
  | none => cases result' <;> simp [sameType?]
  | some type => cases result' <;> simp [sameType?, h type rfl]

/-- Written types differ at most in their locations exactly if they are one type once all stands at one place. -/
theorem TypeExpr.same_iff (type type' : TypeExpr) :
    type.same type' = true ↔ type.relocate (fun _ => place) = type'.relocate fun _ => place := by
  induction type using TypeExpr.induct generalizing type' with
  | named loc path args hargs =>
    cases type' <;> simp [same, relocate, sameTypes_eq_sameLists, relocateTypes_eq_map, sameLists_iff hargs]
  | array loc element length helement => cases type' <;> simp [same, relocate, helement]
  | function loc params result hparams hresult =>
    cases type' <;> simp [same, relocate, sameTypes_eq_sameLists, relocateTypes_eq_map, relocateResult_eq_map,
      sameLists_iff hparams, sameType?_iff_of_mem place hresult]
  | unknown node => cases type' <;> simp [same, relocate, Foreign.same_iff place]

theorem sameTypes_iff (types types' : List TypeExpr) :
    sameTypes types types' = true ↔ relocateTypes (fun _ => place) types = relocateTypes (fun _ => place) types' := by
  rw [sameTypes_eq_sameLists, relocateTypes_eq_map, relocateTypes_eq_map]
  exact sameLists_iff fun type _ => type.same_iff place

theorem sameInits_iff_of_mem {inits : List (FieldInit Expr)} (h : ∀ init ∈ inits, ∀ e, init.value.same e = true ↔
      init.value.relocate (fun _ => place) = e.relocate fun _ => place) (inits' : List (FieldInit Expr)) :
    sameInits inits inits' = true ↔ relocateInits (fun _ => place) inits = relocateInits (fun _ => place) inits' := by
  rw [sameInits_eq_sameLists, relocateInits_eq_map, relocateInits_eq_map]
  exact sameLists_iff fun init hinit init' => by simp [h init hinit]

/-- Expressions differ at most in their locations exactly if they are one expression once all stands at one place. -/
theorem Expr.same_iff (e e' : Expr) :
    e.same e' = true ↔ e.relocate (fun _ => place) = e'.relocate fun _ => place := by
  induction e using Expr.induct generalizing e' with
  | literal | binding => cases e' <;> simp [same, relocate]
  | field => cases e' <;> simp [same, relocate]
  | call loc callee typeArgs args hargs =>
    cases e' <;> simp [same, relocate, sameTypes_iff place, sameExprs_eq_sameLists, relocateExprs_eq_map,
      sameLists_iff hargs, and_assoc]
  | init loc struct fields hfields => cases e' <;> simp [same, relocate, sameInits_iff_of_mem place hfields]
  | unary loc op operand hoperand => cases e' <;> simp [same, relocate, hoperand]
  | binary loc op left right hleft hright => cases e' <;> simp [same, relocate, hleft, hright, and_assoc]
  | paren loc inner hinner => cases e' <;> simp [same, relocate, hinner]
  | operatorless loc operands hoperands =>
    cases e' <;> simp [same, relocate, sameExprs_eq_sameLists, relocateExprs_eq_map, sameLists_iff hoperands]
  | unknown node => cases e' <;> simp [same, relocate, Foreign.same_iff place]

theorem sameExpr?_iff (value value' : Option Expr) :
    sameExpr? value value' = true ↔
      value.map (Expr.relocate fun _ => place) = value'.map (Expr.relocate fun _ => place) := by
  cases value <;> cases value' <;> simp [sameExpr?, Expr.same_iff place]

theorem sameBlock_iff_of_mem {body : Block Stmt} (h : ∀ stmt ∈ body.statements, ∀ stmt', stmt.same stmt' = true ↔
      stmt.relocate (fun _ => place) = stmt'.relocate fun _ => place) (body' : Block Stmt) :
    sameBlock body body' = true ↔ relocateBlock (fun _ => place) body = relocateBlock (fun _ => place) body' := by
  cases body
  cases body'
  simp [sameBlock, sameStmts_eq_sameLists, relocateBlock, relocateStmts_eq_map, sameLists_iff h]

theorem sameBranches_iff_of_mem {branches : List (Branch Expr Stmt)}
    (h : ∀ branch ∈ branches, ∀ stmt ∈ branch.body.statements, ∀ stmt', stmt.same stmt' = true ↔
      stmt.relocate (fun _ => place) = stmt'.relocate fun _ => place) (branches' : List (Branch Expr Stmt)) :
    sameBranches branches branches' = true ↔
      relocateBranches (fun _ => place) branches = relocateBranches (fun _ => place) branches' := by
  rw [sameBranches_eq_sameLists, relocateBranches_eq_map, relocateBranches_eq_map]
  exact sameLists_iff fun branch hbranch branch' => by
    simp [Expr.same_iff place, sameBlock_iff_of_mem place (h branch hbranch)]

/-- Statements differ at most in their locations exactly if they are one statement once all stands at one place. -/
theorem Stmt.same_iff (stmt stmt' : Stmt) :
    stmt.same stmt' = true ↔ stmt.relocate (fun _ => place) = stmt'.relocate fun _ => place := by
  induction stmt using Stmt.induct generalizing stmt' with
  | block body hbody => cases stmt' <;> simp [same, relocate, sameBlock_iff_of_mem place hbody]
  | letBinding => cases stmt' <;> simp [same, relocate, TypeExpr.same_iff place, Expr.same_iff place, and_assoc]
  | assign => cases stmt' <;> simp [same, relocate, Expr.same_iff place, and_assoc]
  | ifChain loc branches otherwise hbranches hotherwise =>
    have helse (otherwise' : Option (Block Stmt)) : sameBlock? otherwise otherwise' = true ↔
        relocateElse (fun _ => place) otherwise = relocateElse (fun _ => place) otherwise' := by
      cases otherwise with
      | none => cases otherwise' <;> simp [sameBlock?, relocateElse]
      | some body =>
        cases otherwise' <;> simp [sameBlock?, relocateElse, sameBlock_iff_of_mem place (hotherwise body rfl)]
    cases stmt' <;> simp [same, relocate, sameBranches_iff_of_mem place hbranches, helse]
  | whileLoop loc condition body hbody =>
    cases stmt' <;> simp [same, relocate, Expr.same_iff place, sameBlock_iff_of_mem place hbody]
  | returnValue => cases stmt' <;> simp [same, relocate, sameExpr?_iff place]
  | breakLoop | continueLoop => cases stmt' <;> simp [same, relocate]
  | expression => cases stmt' <;> simp [same, relocate, Expr.same_iff place]
  | unknown node => cases stmt' <;> simp [same, relocate, Foreign.same_iff place]

theorem Member.same_iff (member member' : Member TypeExpr) :
    member.same member' = true ↔ member.relocate (fun _ => place) (TypeExpr.relocate fun _ => place) =
      member'.relocate (fun _ => place) (TypeExpr.relocate fun _ => place) := by
  simp [same, relocate, TypeExpr.same_iff place]

theorem Header.same_iff (header header' : Header TypeExpr) :
    header.same header' = true ↔ header.relocate (fun _ => place) (TypeExpr.relocate fun _ => place) =
      header'.relocate (fun _ => place) (TypeExpr.relocate fun _ => place) := by
  simp [same, relocate, sameLists_iff fun member _ => Member.same_iff place member,
    sameType?_iff_of_mem place fun type _ => type.same_iff place, and_assoc]

/-- Two items have one shape exactly if they differ in locations only. -/
theorem Item.same_iff (item item' : Item) :
    item.same item' = true ↔ item.relocate (fun _ => place) = item'.relocate fun _ => place := by
  cases item <;> cases item' <;> simp [same, relocate, Header.same_iff place,
    sameLists_iff fun member _ => Member.same_iff place member,
    sameBlock_iff_of_mem place fun stmt _ => stmt.same_iff place]

end

/-- Files of one name whose trees differ only in their locations are one file once all stands at one
    place. -/
theorem Module.same_iff (place : Location) {module_ module_' : Module} (hfile : module_.file = module_'.file) :
    module_.same module_' = true ↔ module_.relocate (fun _ => place) = module_'.relocate fun _ => place := by
  simp [same, relocate, sameLists_iff fun item _ => Item.same_iff place item, hfile]

end Smpl
