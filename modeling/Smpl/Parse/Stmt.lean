import Smpl.Parse.Expr

namespace Smpl.Parse

/-- Reads the guarded block of a branch. A struct initializer may not stand bare in the condition,
    since the brace opens the block. -/
def branch (block : Tokens → Reading (Block Stmt × Tokens)) (budget : Nat) (loc : Location)
    (tokens : Tokens) : Reading (Branch Expr Stmt × Tokens) := do
  let (condition, rest) ← expr budget false tokens
  let (body, rest) ← block rest
  .ok (⟨loc, condition, body⟩, rest)

/-- Reads the further branches of a conditional. -/
def elifBranches (block : Tokens → Reading (Block Stmt × Tokens)) (budget : Nat) :
    Nat → Tokens → Reading (List (Branch Expr Stmt) × Tokens)
  | rounds + 1, ⟨.keyword .elifBranch, _, loc⟩ :: rest => do
    let (first, rest) ← branch block budget loc rest
    let (others, rest) ← elifBranches block budget rounds rest
    .ok (first :: others, rest)
  | _, tokens => .ok ([], tokens)

/-- Reads the last block of a conditional, if there is one. -/
def elseBlock (block : Tokens → Reading (Block Stmt × Tokens)) : Tokens → Reading (Option (Block Stmt) × Tokens)
  | ⟨.keyword .elseBranch, _, _⟩ :: rest => do
    let (body, rest) ← block rest
    .ok (some body, rest)
  | tokens => .ok (none, tokens)

/-- The binding and fields that an expression names as the target of an assignment. -/
def assignTarget? : Expr → Option (String × List String)
  | .binding _ path => if path.isQualified then none else some (path.name, [])
  | .field _ root fields => some (root, fields)
  | _ => none

/-- Reads an expression statement, or an assignment if an equals sign follows its target. -/
def expressionOrAssign (budget : Nat) (loc : Location) (tokens : Tokens) : Reading (Stmt × Tokens) := do
  let (value, rest) ← expr budget true tokens
  match rest with
  | ⟨.symbol .assign, _, _⟩ :: after =>
    match assignTarget? value with
    | none => unexpected .semicolonNotAssign rest
    | some (target, fields) => do
      let (value, rest) ← expr budget true after
      let (_, rest) ← symbol .semicolon .semicolon rest
      .ok (.assign loc target fields value, rest)
  | _ => do
    let (_, rest) ← symbol .semicolon .semicolon rest
    .ok (.expression loc value, rest)

/-- Reads the value of a return statement, if there is one. -/
def returned (budget : Nat) (tokens : Tokens) : Reading (Option Expr × Tokens) :=
  if startsWith .semicolon tokens then .ok (none, tokens)
  else do
    let (value, rest) ← expr budget true tokens
    .ok (some value, rest)

/-- Reads a statement; `block` reads the blocks inside it. -/
def statement (block : Tokens → Reading (Block Stmt × Tokens)) (budget : Nat) (tokens : Tokens) :
    Reading (Stmt × Tokens) :=
  match tokens with
  | [] => unexpected .expression tokens
  | ⟨kind, _, loc⟩ :: rest =>
    match kind with
    | .keyword .letBinding => do
      let ((name, _), rest) ← identifier .bindingName rest
      let (_, rest) ← symbol .colon .colonAndType rest
      let (type, rest) ← typeExpr budget rest
      let (_, rest) ← symbol .assign .assign rest
      let (value, rest) ← expr budget true rest
      let (_, rest) ← symbol .semicolon .semicolon rest
      .ok (.letBinding loc name type value, rest)
    | .keyword .ifBranch => do
      let (first, rest) ← branch block budget loc rest
      let (others, rest) ← elifBranches block budget budget rest
      let (otherwise, rest) ← elseBlock block rest
      .ok (.ifChain loc (first :: others) otherwise, rest)
    | .keyword .whileLoop => do
      let (condition, rest) ← expr budget false rest
      let (body, rest) ← block rest
      .ok (.whileLoop loc condition body, rest)
    | .keyword .returnValue => do
      let (value, rest) ← returned budget rest
      let (_, rest) ← symbol .semicolon .semicolon rest
      .ok (.returnValue loc value, rest)
    | .keyword .breakLoop => do
      let (_, rest) ← symbol .semicolon .semicolon rest
      .ok (.breakLoop loc, rest)
    | .keyword .continueLoop => do
      let (_, rest) ← symbol .semicolon .semicolon rest
      .ok (.continueLoop loc, rest)
    | .symbol .leftBrace => do
      let (body, rest) ← block tokens
      .ok (.block body, rest)
    | _ => expressionOrAssign budget loc tokens

/-- Reads statements up to a closing brace or the end of the tokens. -/
def statements (statement : Tokens → Reading (Stmt × Tokens)) : Nat → Tokens → Reading (List Stmt × Tokens)
  | 0, tokens => .ok ([], tokens)
  | rounds + 1, tokens =>
    if tokens.isEmpty || startsWith .rightBrace tokens then .ok ([], tokens)
    else do
      let (first, rest) ← statement tokens
      let (others, rest) ← statements statement rounds rest
      .ok (first :: others, rest)

/-- Reads statements in braces. Every level of nesting takes a token, so a budget of the token count
    never runs out. -/
def block : Nat → Tokens → Reading (Block Stmt × Tokens)
  | 0, tokens => missing .leftBrace tokens
  | budget + 1, tokens => do
    let (loc, rest) ← symbol .leftBrace .leftBrace tokens
    let (body, rest) ← statements (statement (block budget) budget) budget rest
    let (_, rest) ← symbol .rightBrace .rightBrace rest
    .ok (⟨loc, body⟩, rest)

end Smpl.Parse
