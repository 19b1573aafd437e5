import Smpl.Proofs.Checker.Stmt
import Smpl.Typed.Erase

namespace Smpl

open List

theorem eraseTypes_eq_map (types : List TypedTypeExpr) : eraseTypes types = types.map TypedTypeExpr.erase :=
  eq_map_of_cons rfl fun _ _ => rfl

theorem eraseExprs_eq_map (exprs : List TypedExpr) : eraseExprs exprs = exprs.map TypedExpr.erase :=
  eq_map_of_cons rfl fun _ _ => rfl

/-- What was written for a field of an initializer. -/
def FieldInit.erase (init : FieldInit TypedExpr) : FieldInit Expr :=
  { init with value := init.value.erase }

theorem eraseInits_eq_map (inits : List (FieldInit TypedExpr)) : eraseInits inits = inits.map FieldInit.erase :=
  eq_map_of_cons rfl fun _ _ => rfl

/-- What was written for a branch. -/
def Branch.erase (branch : Branch TypedExpr TypedStmt) : Branch Expr Stmt :=
  ⟨branch.loc, branch.condition.erase, eraseBlock branch.body⟩

theorem eraseBranches_eq_map (branches : List (Branch TypedExpr TypedStmt)) :
    eraseBranches branches = branches.map Branch.erase :=
  eq_map_of_cons rfl fun _ _ => rfl

namespace TypeScope

variable {scope : TypeScope}

/-- A resolved type is what was written. -/
theorem erase_of_resolve (type : TypeExpr) {resolved : TypedTypeExpr} (h : scope.resolve type = .ok resolved) :
    resolved.erase = type := by
  induction type using TypeExpr.induct generalizing resolved with
  | named loc path args hargs =>
    cases resolve_named_eq_ok_iff.1 h with
    | simple | struct => rfl
    | opaqueType _ _ _ _ hresolved =>
      rw [TypedTypeExpr.erase, eraseTypes_eq_map,
        map_eq_of_forall₂ (fun type htype _ hpart => hargs type htype hpart) (mapM_eq_ok_iff.1 hresolved)]
  | array loc element length helement =>
    obtain ⟨part, hpart, rfl⟩ := resolve_array_eq_ok_iff.1 h
    rw [TypedTypeExpr.erase, helement hpart]
  | function loc params result hparams hresult =>
    obtain ⟨parts, part, hparts, hpart, rfl⟩ := resolve_function_eq_ok_iff.1 h
    rw [TypedTypeExpr.erase, eraseTypes_eq_map,
      map_eq_of_forall₂ (fun type htype _ hpart => hparams type htype hpart) (mapM_eq_ok_iff.1 hparts)]
    cases result with
    | none =>
      cases hpart
      rfl
    | some result =>
      obtain ⟨_, hresolved, rfl⟩ := resolveOption_some_eq_ok_iff.1 hpart
      rw [eraseResult, hresult result rfl hresolved]
  | unknown node => cases h

theorem erase_of_resolveOption {type : Option TypeExpr} {resolved : Option TypedTypeExpr}
    (h : scope.resolveOption type = .ok resolved) : eraseResult resolved = type := by
  cases type with
  | none =>
    cases h
    rfl
  | some type =>
    obtain ⟨part, hpart, rfl⟩ := resolveOption_some_eq_ok_iff.1 h
    rw [eraseResult, erase_of_resolve type hpart]

/-- Resolved members are what was written. -/
theorem erase_of_mapM_member {members : List (Member TypeExpr)} {resolved : List (Member TypedTypeExpr)}
    (h : members.mapM scope.member = .ok resolved) : resolved.map Member.erase = members := by
  refine map_eq_of_forall₂ (fun written _ out hout => ?_) (mapM_eq_ok_iff.1 h)
  obtain ⟨type, htype, rfl⟩ := member_eq_ok_iff.1 hout
  rw [Member.erase, erase_of_resolve _ htype]

end TypeScope

namespace Context

variable {ctx : Context} {scope : Scope}

theorem lookup_name {name : String} {symbol : Local} (h : scope.lookup name = some symbol) : symbol.name = name := by
  obtain ⟨frame, _, hfind⟩ := exists_of_findSome?_eq_some h
  simpa [Scope.findIn] using find?_some hfind

theorem FindsCallee.erase_typeArgs {path : Path} {loc : Location} {typeArgs : List TypeExpr} {callee : Callee}
    (h : FindsCallee ctx scope path loc typeArgs callee) : eraseTypes callee.typeArgs = typeArgs := by
  cases h with
  | binding => rfl
  | function _ _ _ _ _ hresolved =>
    rw [eraseTypes_eq_map]
    exact map_eq_of_forall₂ (fun type _ _ => TypeScope.erase_of_resolve type) (mapM_eq_ok_iff.1 hresolved)

/-- A checked expression is what was written. -/
theorem erase_of_expr (e : Expr) {out : TypedExpr} (h : ctx.expr scope e = .ok out) : out.erase = e := by
  induction e using Expr.induct generalizing out with
  | literal loc value =>
    cases expr_eq_ok_iff.1 h with
    | literal => rfl
  | binding loc path =>
    cases expr_eq_ok_iff.1 h with
    | binding => rfl
  | field loc root fields =>
    cases expr_eq_ok_iff.1 h with
    | field hlookup => rw [TypedExpr.erase, lookup_name hlookup]
  | call loc path typeArgs args hargs =>
    cases expr_eq_ok_iff.1 h with
    | call hcallee houts =>
      rw [TypedExpr.erase, hcallee.erase_typeArgs, eraseExprs_eq_map,
        map_eq_of_forall₂ (fun e he _ hpart => hargs e he hpart) (mapM_eq_ok_iff.1 houts)]
  | init loc path fields hfields =>
    cases expr_eq_ok_iff.1 h with
    | init _ _ houts =>
      rw [TypedExpr.erase, eraseInits_eq_map]
      refine congrArg _ (map_eq_of_forall₂ (fun field hfield out hout => ?_) houts)
      rw [FieldInit.erase, hfields field hfield hout.value, hout.loc, hout.name]
  | unary loc op operand hoperand =>
    cases expr_eq_ok_iff.1 h with
    | unary hpart => rw [TypedExpr.erase, hoperand hpart]
  | binary loc op left right hleft hright =>
    cases expr_eq_ok_iff.1 h with
    | binary hfirst hsecond => rw [TypedExpr.erase, hleft hfirst, hright hsecond]
  | paren loc inner hinner =>
    cases expr_eq_ok_iff.1 h with
    | paren hpart => rw [TypedExpr.erase, hinner hpart]
  | operatorless loc operands => cases expr_eq_ok_iff.1 h
  | unknown node => cases h

/-- A checked block is what was written, if its statements are. -/
theorem erase_of_block {body : Block Stmt} {out : Block TypedStmt} {inLoop : Bool}
    (hstmts : ∀ {inLoop scope outs}, ctx.stmts inLoop scope body.statements = .ok outs →
      eraseStmts outs = body.statements)
    (h : ctx.block inLoop scope body = .ok out) : eraseBlock out = body := by
  obtain ⟨hout, hloc⟩ := block_eq_ok_iff.1 h
  rw [eraseBlock, hstmts hout, hloc]

/-- Checked statements are what was written. -/
theorem erase_of_stmts {inLoop : Bool} {outs : List TypedStmt} (stmts : List Stmt)
    (h : ctx.stmts inLoop scope stmts = .ok outs) : eraseStmts outs = stmts := by
  induction stmts using Stmt.inductList generalizing inLoop scope outs with
  | nil =>
    cases h
    rfl
  | cons stmt rest hblocks hrest =>
    obtain ⟨_, out, others, hstmt, hothers, rfl⟩ := stmts_cons_eq_ok_iff.1 h
    rw [eraseStmts, hrest hothers]
    refine congrArg (· :: rest) ?_
    cases hstmt with
    | block hblock => rw [TypedStmt.erase, erase_of_block (hblocks _ mem_cons_self) hblock]
    | letBinding hresolve hvalue =>
      rw [TypedStmt.erase, TypeScope.erase_of_resolve _ hresolve, erase_of_expr _ hvalue]
    | assign hlookup _ hvalue => rw [TypedStmt.erase, lookup_name hlookup, erase_of_expr _ hvalue]
    | @ifChain _ branches otherwise outs last houts hout =>
      have hchain : eraseBranches outs = branches := by
        rw [eraseBranches_eq_map]
        refine map_eq_of_forall₂ (fun branch hbranch out hout => ?_) houts
        have hbody := mem_append_left otherwise.toList (mem_map_of_mem (f := Branch.body) hbranch)
        rw [Branch.erase, hout.loc, erase_of_expr _ hout.condition, erase_of_block (hblocks _ hbody) hout.body]
      have hlast : eraseElse last = otherwise := by
        cases hout with
        | none => rfl
        | some hblock => rw [eraseElse, erase_of_block (hblocks _ (by simp [Stmt.blocks])) hblock]
      rw [TypedStmt.erase, hchain, hlast]
    | whileLoop hcondition _ hblock =>
      rw [TypedStmt.erase, erase_of_expr _ hcondition, erase_of_block (hblocks _ mem_cons_self) hblock]
    | returnNothing => rfl
    | returnValue _ hvalue => rw [TypedStmt.erase, Option.map_some, erase_of_expr _ hvalue]
    | breakLoop | continueLoop => rfl
    | expression hvalue => rw [TypedStmt.erase, erase_of_expr _ hvalue]

end Context

end Smpl
