import Smpl.Rust.Expr
import Smpl.Syntax.Print

namespace Smpl

mutual

/-- The bindings that a statement makes, those of blocks inside it included. -/
def TypedStmt.bindings : TypedStmt → List Local
  | .letBinding symbol _ _ => [symbol]
  | .block body => blockBindings body
  | .whileLoop _ _ body => blockBindings body
  | .ifChain _ branches otherwise => branchBindings branches ++ otherwiseBindings otherwise
  | .assign _ _ _ _ | .returnValue _ _ | .breakLoop _ | .continueLoop _ | .expression _ _ => []

def blockBindings : Block TypedStmt → List Local
  | ⟨_, statements⟩ => allBindings statements

def allBindings : List TypedStmt → List Local
  | [] => []
  | stmt :: others => stmt.bindings ++ allBindings others

def branchBindings : List (Branch TypedExpr TypedStmt) → List Local
  | [] => []
  | ⟨_, _, body⟩ :: others => blockBindings body ++ branchBindings others

def otherwiseBindings : Option (Block TypedStmt) → List Local
  | none => []
  | some body => blockBindings body

end

namespace Rust.Setting

mutual

/-- A statement as lines of Rust text. -/
def stmt (setting : Setting) : TypedStmt → Except Failure (List String)
  | .block body => do
    let lines ← setting.block body
    return "\x7b" :: lines ++ ["\x7d"]
  | .letBinding symbol type value => do
    let type ← setting.type (some symbol.loc) type.type
    let value ← setting.expr value
    return ["let mut " ++ identifier symbol.name ++ ": " ++ type ++ " = " ++ value ++ ";"]
  | .assign _ target fields value => do
    let value ← setting.expr value
    return [chain target.name fields ++ " = " ++ value ++ ";"]
  | .ifChain _ branches otherwise => do
    let lines ← setting.branches "" branches
    let others ← setting.otherwise otherwise
    return lines ++ others ++ ["\x7d"]
  | .whileLoop _ condition body => do
    let condition ← setting.condition condition
    let lines ← setting.block body
    return ("while " ++ condition ++ " \x7b") :: lines ++ ["\x7d"]
  | .returnValue _ none => return ["return;"]
  | .returnValue _ (some value) => do
    let value ← setting.expr value
    return ["return " ++ value ++ ";"]
  | .breakLoop _ => return ["break;"]
  | .continueLoop _ => return ["continue;"]
  | .expression _ value => do
    let value ← setting.expr value
    return [value ++ ";"]

/-- The indented lines of a block, without its braces. -/
def block (setting : Setting) : Block TypedStmt → Except Failure (List String)
  | ⟨_, statements⟩ => do
    let lines ← setting.stmts statements
    return indented lines

def stmts (setting : Setting) : List TypedStmt → Except Failure (List String)
  | [] => return []
  | stmt :: others => do
    let lines ← setting.stmt stmt
    let rest ← setting.stmts others
    return lines ++ rest

/-- The lines of branches after an opening text. -/
def branches (setting : Setting) (opening : String) :
    List (Branch TypedExpr TypedStmt) → Except Failure (List String)
  | [] => return []
  | ⟨_, condition, body⟩ :: others => do
    let condition ← setting.condition condition
    let lines ← setting.block body
    let rest ← setting.branches "\x7d else " others
    return (opening ++ "if " ++ condition ++ " \x7b") :: lines ++ rest

def otherwise (setting : Setting) : Option (Block TypedStmt) → Except Failure (List String)
  | none => return []
  | some body => do
    let lines ← setting.block body
    return "\x7d else \x7b" :: lines

end

end Rust.Setting

end Smpl
