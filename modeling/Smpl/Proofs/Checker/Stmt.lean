import Smpl.Proofs.Checker.Expr

namespace Smpl

namespace Scope

variable {scope scope' : Scope} {symbol : Local}

theorem findIn_eq_none_iff {name : String} {frame : Frame} :
    findIn name frame = none ↔ name ∉ frame.map (·.name) := by
  simp [findIn]

@[simp] theorem lookup_push (scope : Scope) (name : String) : scope.push.lookup name = scope.lookup name := by
  simp only [lookup, push, frames, List.findSome?_cons, findIn, List.find?_nil]

theorem lookup_mk_cons (symbol : Local) (scope : Scope) (name : String) :
    (Scope.mk (symbol :: scope.current) scope.outer).lookup name =
      if name = symbol.name then some symbol else scope.lookup name := by
  by_cases hname : name = symbol.name
  · simp [lookup, frames, findIn, hname]
  · have hother : ¬symbol.name = name := fun heq => hname heq.symm
    simp [lookup, frames, List.findSome?_cons, findIn, hname, hother]

/-- A name can be declared exactly if its block has none such yet; the blocks around it do not matter. -/
theorem declare_eq_ok_iff :
    scope.declare symbol = .ok scope' ↔
      symbol.name ∉ scope.current.map (·.name) ∧ scope' = ⟨symbol :: scope.current, scope.outer⟩ := by
  rw [← findIn_eq_none_iff, declare]
  cases findIn symbol.name scope.current <;> simp [@eq_comm _ _ scope']

end Scope

namespace Context

variable {ctx : Context} {inLoop : Bool} {scope : Scope}

theorem condition_eq_ok_iff {e : Expr} {checked : TypedExpr} :
    ctx.condition scope e = .ok checked ↔ ctx.expr scope e = .ok checked ∧ checked.type = .bool := by
  simp only [condition, bind_eq_ok_iff, expectType_eq_ok_iff, pure_eq_ok_iff]
  constructor
  · rintro ⟨_, hchecked, _, htype, rfl⟩
    exact ⟨hchecked, htype.symm⟩
  · rintro ⟨hchecked, htype⟩
    exact ⟨_, hchecked, (), htype.symm, rfl⟩

/-- The statements of a block are checked in a scope of their own. -/
theorem block_eq_ok_iff {body : Block Stmt} {checked : Block TypedStmt} :
    ctx.block inLoop scope body = .ok checked ↔
      ctx.stmts inLoop scope.push body.statements = .ok checked.statements ∧ checked.loc = body.loc := by
  obtain ⟨loc, statements⟩ := body
  obtain ⟨loc', statements'⟩ := checked
  simp only [block, bind_eq_ok_iff, pure_eq_ok_iff, Block.mk.injEq]
  constructor
  · rintro ⟨_, hstmts, rfl, rfl⟩
    exact ⟨hstmts, rfl⟩
  · rintro ⟨hstmts, rfl⟩
    exact ⟨_, hstmts, rfl, rfl⟩

/-- A branch is checked: its condition decides, and its block is right. -/
structure ChecksBranch (ctx : Context) (inLoop : Bool) (scope : Scope) (branch : Branch Expr Stmt)
    (out : Branch TypedExpr TypedStmt) : Prop where
  loc : out.loc = branch.loc
  condition : ctx.expr scope branch.condition = .ok out.condition
  type : out.condition.type = .bool
  body : ctx.block inLoop scope branch.body = .ok out.body

/-- The branches of a conditional are right exactly if each of them is by itself. -/
theorem branches_eq_ok_iff {branches : List (Branch Expr Stmt)} {outs : List (Branch TypedExpr TypedStmt)} :
    ctx.branches inLoop scope branches = .ok outs ↔ List.Forall₂ (ctx.ChecksBranch inLoop scope) branches outs := by
  induction branches generalizing outs with
  | nil => simp [Context.branches, @eq_comm _ [] outs]
  | cons branch branches ih =>
    obtain ⟨loc, condition, body⟩ := branch
    simp only [Context.branches, bind_eq_ok_iff, condition_eq_ok_iff, ih, pure_eq_ok_iff,
      List.forall₂_cons_left_iff]
    constructor
    · rintro ⟨checked, ⟨hchecked, htype⟩, block, hblock, others, hothers, rfl⟩
      exact ⟨_, others, ⟨rfl, hchecked, htype, hblock⟩, hothers, rfl⟩
    · rintro ⟨⟨_, checked, block⟩, others, ⟨rfl, hchecked, htype, hblock⟩, hothers, rfl⟩
      exact ⟨checked, ⟨hchecked, htype⟩, block, hblock, others, hothers, rfl⟩

theorem otherwise_eq_ok_iff {otherwise : Option (Block Stmt)} {out : Option (Block TypedStmt)} :
    ctx.otherwise inLoop scope otherwise = .ok out ↔
      Option.Rel (fun body checked => ctx.block inLoop scope body = .ok checked) otherwise out := by
  cases otherwise with
  | none => cases out <;> simp [Context.otherwise]
  | some body => cases out <;> simp [Context.otherwise, bind_eq_ok_iff]

/-- A function without a result returns nothing, any other one a value of its result type. -/
theorem returned_eq_ok_iff {loc : Location} {value : Option Expr} {out : Option TypedExpr} :
    ctx.returned scope loc value = .ok out ↔
      match value with
      | none => ctx.result = .unit ∧ out = none
      | some value =>
        ctx.result ≠ .unit ∧ ∃ checked, ctx.expr scope value = .ok checked ∧ checked.type = ctx.result ∧
          out = some checked := by
  cases value with
  | none => simp [returned, bind_eq_ok_iff, @eq_comm _ none out]
  | some value =>
    by_cases hresult : ctx.result = .unit
    · simp [returned, bind_eq_ok_iff, hresult]
    · simp [returned, bind_eq_ok_iff, hresult, @eq_comm _ ctx.result, @eq_comm _ _ out]

/-- What checking a statement finds: the checked statement, and the scope of the statements after it. -/
inductive ChecksStmt (ctx : Context) (inLoop : Bool) (scope : Scope) : Stmt → TypedStmt → Scope → Prop
  | block {body : Block Stmt} {out : Block TypedStmt} :
    ctx.block inLoop scope body = .ok out → ChecksStmt ctx inLoop scope (.block body) (.block out) scope
  | letBinding {loc : Location} {name : String} {type : TypeExpr} {value : Expr} {resolved : TypedTypeExpr}
      {out : TypedExpr} :
    ctx.typeScope.resolve type = .ok resolved → ctx.expr scope value = .ok out → out.type = resolved.type →
    name ∉ scope.current.map (·.name) →
    ChecksStmt ctx inLoop scope (.letBinding loc name type value)
      (.letBinding ⟨name, resolved.type, loc, false⟩ resolved out)
      ⟨⟨name, resolved.type, loc, false⟩ :: scope.current, scope.outer⟩
  | assign {loc : Location} {target : String} {fields : List String} {value : Expr} {symbol : Local}
      {out : TypedExpr} :
    scope.lookup target = some symbol → ctx.chainType loc symbol.type fields = .ok out.type →
    ctx.expr scope value = .ok out →
    ChecksStmt ctx inLoop scope (.assign loc target fields value) (.assign loc symbol fields out) scope
  | ifChain {loc : Location} {branches : List (Branch Expr Stmt)} {otherwise : Option (Block Stmt)}
      {outs : List (Branch TypedExpr TypedStmt)} {out : Option (Block TypedStmt)} :
    List.Forall₂ (ctx.ChecksBranch inLoop scope) branches outs →
    Option.Rel (fun body checked => ctx.block inLoop scope body = .ok checked) otherwise out →
    ChecksStmt ctx inLoop scope (.ifChain loc branches otherwise) (.ifChain loc outs out) scope
  | whileLoop {loc : Location} {condition : Expr} {body : Block Stmt} {decides : TypedExpr} {out : Block TypedStmt} :
    ctx.expr scope condition = .ok decides → decides.type = .bool → ctx.block true scope body = .ok out →
    ChecksStmt ctx inLoop scope (.whileLoop loc condition body) (.whileLoop loc decides out) scope
  | returnNothing {loc : Location} :
    ctx.result = .unit → ChecksStmt ctx inLoop scope (.returnValue loc none) (.returnValue loc none) scope
  | returnValue {loc : Location} {value : Expr} {out : TypedExpr} :
    ctx.result ≠ .unit → ctx.expr scope value = .ok out → out.type = ctx.result →
    ChecksStmt ctx inLoop scope (.returnValue loc (some value)) (.returnValue loc (some out)) scope
  | breakLoop {loc : Location} :
    inLoop = true → ChecksStmt ctx inLoop scope (.breakLoop loc) (.breakLoop loc) scope
  | continueLoop {loc : Location} :
    inLoop = true → ChecksStmt ctx inLoop scope (.continueLoop loc) (.continueLoop loc) scope
  | expression {loc : Location} {value : Expr} {out : TypedExpr} :
    ctx.expr scope value = .ok out →
    ChecksStmt ctx inLoop scope (.expression loc value) (.expression loc out) scope

/-- Checking a statement succeeds in these ways only. -/
theorem stmt_eq_ok_iff {stmt : Stmt} {out : TypedStmt} {scope' : Scope} :
    ctx.stmt inLoop scope stmt = .ok (out, scope') ↔ ctx.ChecksStmt inLoop scope stmt out scope' := by
  constructor
  · intro h
    cases stmt with
    | block body =>
      simp only [Context.stmt, bind_eq_ok_iff, pure_eq_ok_iff, Prod.mk.injEq] at h
      obtain ⟨_, hbody, rfl, rfl⟩ := h
      exact .block hbody
    | letBinding loc name type value =>
      simp only [Context.stmt, bind_eq_ok_iff, expectType_eq_ok_iff, Scope.declare_eq_ok_iff, pure_eq_ok_iff,
        Prod.mk.injEq] at h
      obtain ⟨_, hresolved, _, hvalue, _, htype, _, ⟨hname, rfl⟩, rfl, rfl⟩ := h
      exact .letBinding hresolved hvalue htype.symm hname
    | assign loc target fields value =>
      simp only [Context.stmt, bind_eq_ok_iff, expectType_eq_ok_iff, binding_eq_ok_iff, pure_eq_ok_iff,
        Prod.mk.injEq] at h
      obtain ⟨_, hlookup, _, hchain, _, hvalue, _, rfl, rfl, rfl⟩ := h
      exact .assign hlookup hchain hvalue
    | ifChain loc branches otherwise =>
      simp only [Context.stmt, bind_eq_ok_iff, branches_eq_ok_iff, otherwise_eq_ok_iff, pure_eq_ok_iff,
        Prod.mk.injEq] at h
      obtain ⟨_, hbranches, _, hotherwise, rfl, rfl⟩ := h
      exact .ifChain hbranches hotherwise
    | whileLoop loc condition body =>
      simp only [Context.stmt, bind_eq_ok_iff, condition_eq_ok_iff, pure_eq_ok_iff, Prod.mk.injEq] at h
      obtain ⟨_, ⟨hcondition, htype⟩, _, hbody, rfl, rfl⟩ := h
      exact .whileLoop hcondition htype hbody
    | returnValue loc value =>
      simp only [Context.stmt, bind_eq_ok_iff, returned_eq_ok_iff, pure_eq_ok_iff, Prod.mk.injEq] at h
      obtain ⟨_, hvalue, rfl, rfl⟩ := h
      cases value with
      | none =>
        obtain ⟨hresult, rfl⟩ := hvalue
        exact .returnNothing hresult
      | some value =>
        obtain ⟨hresult, _, hvalue, htype, rfl⟩ := hvalue
        exact .returnValue hresult hvalue htype
    | breakLoop loc =>
      cases inLoop <;> simp [Context.stmt] at h
      obtain ⟨rfl, rfl⟩ := h
      exact .breakLoop rfl
    | continueLoop loc =>
      cases inLoop <;> simp [Context.stmt] at h
      obtain ⟨rfl, rfl⟩ := h
      exact .continueLoop rfl
    | expression loc value =>
      simp only [Context.stmt, bind_eq_ok_iff, pure_eq_ok_iff, Prod.mk.injEq] at h
      obtain ⟨_, hvalue, rfl, rfl⟩ := h
      exact .expression hvalue
    | unknown node => cases node <;> simp [Context.stmt] at h
  · intro h
    cases h with
    | block hbody => simp [Context.stmt, hbody]
    | @letBinding loc name _ _ resolved _ hresolved hvalue htype hname =>
      have hdeclare : scope.declare ⟨name, resolved.type, loc, false⟩ = .ok _ :=
        Scope.declare_eq_ok_iff.2 ⟨hname, rfl⟩
      simp [Context.stmt, hresolved, hvalue, htype, hdeclare, expectType]
    | @assign loc target _ _ symbol _ hlookup hchain hvalue =>
      have hbinding : ctx.binding scope target loc = .ok symbol := binding_eq_ok_iff.2 hlookup
      simp [Context.stmt, hbinding, hchain, hvalue, expectType]
    | ifChain hbranches hotherwise =>
      simp [Context.stmt, branches_eq_ok_iff.2 hbranches, otherwise_eq_ok_iff.2 hotherwise]
    | whileLoop hcondition htype hbody => simp [Context.stmt, condition_eq_ok_iff.2 ⟨hcondition, htype⟩, hbody]
    | returnNothing hresult => simp [Context.stmt, returned_eq_ok_iff, bind_eq_ok_iff, hresult]
    | returnValue hresult hvalue htype =>
      simp [Context.stmt, returned_eq_ok_iff, bind_eq_ok_iff, hresult, hvalue, htype]
    | breakLoop hloop => simp [Context.stmt, hloop]
    | continueLoop hloop => simp [Context.stmt, hloop]
    | expression hvalue => simp [Context.stmt, hvalue]

/-- Each statement is checked in the scope that the one before leaves. -/
theorem stmts_cons_eq_ok_iff {stmt : Stmt} {rest : List Stmt} {outs : List TypedStmt} :
    ctx.stmts inLoop scope (stmt :: rest) = .ok outs ↔
      ∃ out scope' others, ctx.ChecksStmt inLoop scope stmt out scope' ∧
        ctx.stmts inLoop scope' rest = .ok others ∧ outs = out :: others := by
  simp [Context.stmts, bind_eq_ok_iff, ← stmt_eq_ok_iff, @eq_comm _ _ outs]

end Context

end Smpl
