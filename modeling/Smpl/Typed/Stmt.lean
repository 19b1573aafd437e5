import Smpl.Typed.Expr

namespace Smpl

mutual

/-- Whether a statement returns on every path through it. Loops may be left or not entered, so what
    stands in them does not count. -/
def Stmt.returns : Stmt → Bool
  | .block body => blockReturns body
  | .ifChain _ branches otherwise => branchesReturn branches && otherwiseReturns otherwise
  | .returnValue _ _ => true
  | _ => false

def blockReturns : Block Stmt → Bool
  | ⟨_, statements⟩ => anyReturns statements

def anyReturns : List Stmt → Bool
  | [] => false
  | stmt :: others => stmt.returns || anyReturns others

def branchesReturn : List (Branch Expr Stmt) → Bool
  | [] => true
  | ⟨_, _, body⟩ :: others => blockReturns body && branchesReturn others

def otherwiseReturns : Option (Block Stmt) → Bool
  | none => false
  | some body => blockReturns body

end

namespace Context

/-- Checks the condition of a branch or loop. -/
def condition (ctx : Context) (scope : Scope) (expr : Expr) : Except Failure TypedExpr := do
  let condition ← ctx.expr scope expr
  expectType .condition .bool condition.type condition.loc
  return condition

/-- Checks what a function returns at some place. -/
def returned (ctx : Context) (scope : Scope) (loc : Location) :
    Option Expr → Except Failure (Option TypedExpr)
  | none => do
    expectType (.missingReturnValue ctx.functionName) ctx.result .unit loc
    return none
  | some value => do
    let value ← ctx.expr scope value
    if ctx.result = .unit then
      refuse
        (.typeMismatch (.extraReturnValue ctx.functionName) (some Ty.unit.text) (some value.type.text))
        value.loc
    expectType (.returnValue ctx.functionName) ctx.result value.type value.loc
    return some value

mutual

/-- Checks a statement. A binding is visible from the next statement of its block on. -/
def stmt (ctx : Context) (inLoop : Bool) (scope : Scope) : Stmt → Except Failure (TypedStmt × Scope)
  | .block body => do
    let body ← ctx.block inLoop scope body
    return (.block body, scope)
  | .letBinding loc name type value => do
    let type ← ctx.typeScope.resolve type
    let value ← ctx.expr scope value
    expectType (.initializer name) type.type value.type value.loc
    let symbol : Local := ⟨name, type.type, loc, false⟩
    let scope ← scope.declare symbol
    return (.letBinding symbol type value, scope)
  | .assign loc target fields value => do
    let symbol ← ctx.binding scope target loc
    let type ← ctx.chainType loc symbol.type fields
    let value ← ctx.expr scope value
    expectType (.assignment (".".intercalate (target :: fields))) type value.type value.loc
    return (.assign loc symbol fields value, scope)
  | .ifChain loc branches otherwise => do
    let branches ← ctx.branches inLoop scope branches
    let otherwise ← ctx.otherwise inLoop scope otherwise
    return (.ifChain loc branches otherwise, scope)
  | .whileLoop loc condition body => do
    let condition ← ctx.condition scope condition
    let body ← ctx.block true scope body
    return (.whileLoop loc condition body, scope)
  | .returnValue loc value => do
    let value ← ctx.returned scope loc value
    return (.returnValue loc value, scope)
  | .breakLoop loc => if inLoop then return (.breakLoop loc, scope) else refuse (.loopControl "break") loc
  | .continueLoop loc =>
    if inLoop then return (.continueLoop loc, scope) else refuse (.loopControl "continue") loc
  | .expression loc value => do
    let value ← ctx.expr scope value
    return (.expression loc value, scope)
  | .unknown .nothing => .error (.defect (.missingPart "statements"))
  | .unknown node => .error (.defect (.unknownStatement node))

/-- Checks a block inside a scope. -/
def block (ctx : Context) (inLoop : Bool) (scope : Scope) : Block Stmt → Except Failure (Block TypedStmt)
  | ⟨loc, statements⟩ => do
    let statements ← ctx.stmts inLoop scope.push statements
    return ⟨loc, statements⟩

def stmts (ctx : Context) (inLoop : Bool) (scope : Scope) : List Stmt → Except Failure (List TypedStmt)
  | [] => return []
  | stmt :: others => do
    let (stmt, scope) ← ctx.stmt inLoop scope stmt
    let others ← ctx.stmts inLoop scope others
    return stmt :: others

def branches (ctx : Context) (inLoop : Bool) (scope : Scope) :
    List (Branch Expr Stmt) → Except Failure (List (Branch TypedExpr TypedStmt))
  | [] => return []
  | ⟨loc, condition, body⟩ :: others => do
    let condition ← ctx.condition scope condition
    let body ← ctx.block inLoop scope body
    let others ← ctx.branches inLoop scope others
    return ⟨loc, condition, body⟩ :: others

def otherwise (ctx : Context) (inLoop : Bool) (scope : Scope) :
    Option (Block Stmt) → Except Failure (Option (Block TypedStmt))
  | none => return none
  | some body => do
    let body ← ctx.block inLoop scope body
    return some body

end

end Context

end Smpl
