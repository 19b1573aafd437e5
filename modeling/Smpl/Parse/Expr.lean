import Smpl.Parse.TypeExpr

namespace Smpl.Parse

/-- Reads prefix operators and what they apply to. Two ampersands read as one mark are two
    references, the inner one a column to the right. -/
def unary (leaf : Tokens → Reading (Expr × Tokens)) : Tokens → Reading (Expr × Tokens)
  | ⟨.symbol .and, _, loc⟩ :: rest => do
    let (operand, rest) ← unary leaf rest
    .ok (.unary loc .reference (.unary (loc.right 1) .reference operand), rest)
  | ⟨.symbol mark, lexeme, loc⟩ :: rest =>
    match UnaryOp.ofSymbol? mark with
    | some op => do
      let (operand, rest) ← unary leaf rest
      .ok (.unary loc op operand, rest)
    | none => leaf (⟨.symbol mark, lexeme, loc⟩ :: rest)
  | tokens => leaf tokens

/-- The binary operator of that precedence that stands first, if there is one. -/
def binaryOp? (precedence : Nat) : Tokens → Option (BinaryOp × Tokens)
  | ⟨.symbol mark, _, _⟩ :: rest =>
    match BinaryOp.ofSymbol? mark with
    | some op => if op.precedence = precedence then some (op, rest) else none
    | none => none
  | _ => none

/-- Extends an expression by operators of one precedence and their right operands, grouping to the
    left. -/
def chain (operand : Tokens → Reading (Expr × Tokens)) (precedence : Nat) :
    Nat → Expr → Tokens → Reading (Expr × Tokens)
  | 0, left, tokens => .ok (left, tokens)
  | budget + 1, left, tokens =>
    match binaryOp? precedence tokens with
    | some (op, rest) => do
      let (right, rest) ← operand rest
      chain operand precedence budget (.binary left.loc op left right) rest
    | none => .ok (left, tokens)

/-- Reads an expression made of the tightest `tiers` tiers of binary operators over `operand`. -/
def tiers (operand : Tokens → Reading (Expr × Tokens)) (budget : Nat) : Nat → Tokens → Reading (Expr × Tokens)
  | 0, tokens => operand tokens
  | tier + 1, tokens => do
    let (left, rest) ← tiers operand budget tier tokens
    chain (tiers operand budget tier) (5 - tier) budget left rest

/-- Reads a field with its value in a struct initializer. -/
def fieldInit (expr : Tokens → Reading (Expr × Tokens)) (tokens : Tokens) : Reading (FieldInit Expr × Tokens) := do
  let ((name, loc), rest) ← identifier .fieldName tokens
  let (_, rest) ← symbol .colon .colon rest
  let (value, rest) ← expr rest
  .ok (⟨loc, name, value⟩, rest)

/-- Reads the fields of a struct initializer in braces. -/
def initFields (expr : Tokens → Reading (Expr × Tokens)) (budget : Nat) (tokens : Tokens) :
    Reading (List (FieldInit Expr) × Tokens) := do
  let (_, rest) ← symbol .leftBrace .initBrace tokens
  let (fields, rest) ← commaList .rightBrace (fieldInit expr) budget rest
  let (_, rest) ← symbol .rightBrace .rightBrace rest
  .ok (fields, rest)

/-- The names after the dots of a field chain. -/
def fieldChain : Tokens → Reading (List String × Tokens)
  | ⟨.symbol .dot, _, _⟩ :: ⟨.identifier name, _, _⟩ :: rest => do
    let (names, rest) ← fieldChain rest
    .ok (name :: names, rest)
  | ⟨.symbol .dot, _, _⟩ :: rest => missing .fieldName rest
  | tokens => .ok ([], tokens)

/-- Reads what follows a path: a call, a struct initializer where one may stand bare, a field chain
    if the path is a single name, or nothing. -/
def afterPath (expr : Bool → Tokens → Reading (Expr × Tokens)) (budget : Nat) (bare : Bool)
    (loc : Location) (path : Path) (tokens : Tokens) : Reading (Expr × Tokens) :=
  match tokens with
  | ⟨.symbol .leftParen, _, _⟩ :: _ => do
    let (typeArgs, rest) ← typeList (typeExpr budget) budget tokens
    let (_, rest) ← symbol .leftParen .callParen rest
    let (args, rest) ← commaList .rightParen (expr true) budget rest
    let (_, rest) ← symbol .rightParen .rightParen rest
    .ok (.call loc path typeArgs args, rest)
  | ⟨.symbol .leftBrace, _, _⟩ :: _ =>
    if bare then do
      let (fields, rest) ← initFields (expr true) budget tokens
      .ok (.init loc path fields, rest)
    else .ok (.binding loc path, tokens)
  | ⟨.symbol .dot, _, _⟩ :: _ =>
    if path.isQualified then .ok (.binding loc path, tokens)
    else do
      let (fields, rest) ← fieldChain tokens
      .ok (.field loc path.name fields, rest)
  | _ => .ok (.binding loc path, tokens)

/-- Reads an expression without operators. `expr` reads nested expressions, told whether a struct
    initializer may stand without its keyword; brackets always allow it. -/
def leaf (expr : Bool → Tokens → Reading (Expr × Tokens)) (budget : Nat) (bare : Bool)
    (tokens : Tokens) : Reading (Expr × Tokens) :=
  match tokens with
  | ⟨.integer value, _, loc⟩ :: rest => .ok (.literal loc (.integer value), rest)
  | ⟨.float value, _, loc⟩ :: rest => .ok (.literal loc (.float value), rest)
  | ⟨.string value, _, loc⟩ :: rest => .ok (.literal loc (.string value), rest)
  | ⟨.keyword .trueValue, _, loc⟩ :: rest => .ok (.literal loc (.bool true), rest)
  | ⟨.keyword .falseValue, _, loc⟩ :: rest => .ok (.literal loc (.bool false), rest)
  | ⟨.symbol .leftParen, _, loc⟩ :: rest => do
    let (inner, rest) ← expr true rest
    let (_, rest) ← symbol .rightParen .rightParen rest
    .ok (.paren loc inner, rest)
  | ⟨.keyword .init, _, loc⟩ :: rest => do
    let (path, rest) ← path rest
    let (fields, rest) ← initFields (expr true) budget rest
    .ok (.init loc path fields, rest)
  | ⟨.identifier _, _, loc⟩ :: _ => do
    let (path, rest) ← path tokens
    afterPath expr budget bare loc path rest
  | _ => unexpected .expression tokens

/-- Reads an expression. `bare` tells whether a struct initializer may stand without its keyword.
    Every level of nesting takes a token, so a budget of the token count never runs out. -/
def expr : Nat → Bool → Tokens → Reading (Expr × Tokens)
  | 0, _, tokens => unexpected .expression tokens
  | budget + 1, bare, tokens => tiers (unary (leaf (expr budget) budget bare)) budget 5 tokens

end Smpl.Parse
