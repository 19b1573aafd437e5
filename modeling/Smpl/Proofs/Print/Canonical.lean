import Smpl.Proofs.Traverse
import Smpl.Syntax.Tree

namespace Smpl

/-- Names with a separator between any two. -/
def chainKinds (separator : Symbol) (names : List String) : List TokenKind :=
  [TokenKind.symbol separator].intercalate (names.map fun name => [.identifier name])

/-- Sequences of tokens with a comma between any two. -/
def commaKinds (parts : List (List TokenKind)) : List TokenKind :=
  [TokenKind.symbol .comma].intercalate parts

/-- A list in parentheses after the word `type`, or nothing if it is empty. -/
def typeListKinds (parts : List (List TokenKind)) : List TokenKind :=
  if parts.isEmpty then [] else .symbol .leftParen :: .keyword .type :: commaKinds parts ++ [.symbol .rightParen]

def Path.kinds (path : Path) : List TokenKind :=
  chainKinds .colonColon path.segments

mutual

/-- The tokens of a written type in its canonical text. -/
def TypeExpr.kinds : TypeExpr → List TokenKind
  | .named _ path args => path.kinds ++ typeListKinds (typesKinds args)
  | .array _ element length =>
    .symbol .leftBracket :: element.kinds ++ [.symbol .semicolon, .integer length.toNat, .symbol .rightBracket]
  | .function _ params result =>
    .keyword .fn :: .symbol .leftParen :: commaKinds (typesKinds params) ++ .symbol .rightParen :: resultKinds result
  | .unknown _ => []

def typesKinds : List TypeExpr → List (List TokenKind)
  | [] => []
  | type :: types => type.kinds :: typesKinds types

def resultKinds : Option TypeExpr → List TokenKind
  | none => []
  | some type => .symbol .arrow :: type.kinds

end

def Literal.token : Literal → TokenKind
  | .integer value => .integer value.toNat
  | .float value => .float value
  | .bool value => .keyword (if value then .trueValue else .falseValue)
  | .string value => .string value

/-- Tokens in parentheses. -/
def enclosed (kinds : List TokenKind) : List TokenKind :=
  .symbol .leftParen :: kinds ++ [.symbol .rightParen]

mutual

/-- The tokens of an expression in its canonical text, where the context needs operators of at least
    the given precedence. -/
def Expr.kinds (needed : Nat) : Expr → List TokenKind
  | .binary _ op left right =>
    let kinds := left.kinds op.precedence ++ .symbol op.symbol :: right.kinds (op.precedence + 1)
    if op.precedence < needed then enclosed kinds else kinds
  | .unary _ op operand => .symbol op.symbol :: operand.kinds UnaryOp.precedence
  | .paren _ inner => enclosed (inner.kinds 0)
  | .literal _ value => [value.token]
  | .binding _ path => path.kinds
  | .field _ root fields => chainKinds .dot (root :: fields)
  | .call _ callee typeArgs args =>
    callee.kinds ++ typeListKinds (typesKinds typeArgs) ++ enclosed (commaKinds (exprsKinds args))
  | .init _ struct fields =>
    .keyword .init :: struct.kinds ++ .symbol .leftBrace :: commaKinds (initsKinds fields) ++ [.symbol .rightBrace]
  | .operatorless _ _ | .unknown _ => []

def exprsKinds : List Expr → List (List TokenKind)
  | [] => []
  | e :: exprs => e.kinds 0 :: exprsKinds exprs

def initsKinds : List (FieldInit Expr) → List (List TokenKind)
  | [] => []
  | ⟨_, name, value⟩ :: inits => (.identifier name :: .symbol .colon :: value.kinds 0) :: initsKinds inits

end

mutual

/-- The expression with the parentheses that its canonical text adds in such a context. -/
def Expr.grouped (needed : Nat) : Expr → Expr
  | .binary loc op left right =>
    let e := Expr.binary loc op (left.grouped op.precedence) (right.grouped (op.precedence + 1))
    if op.precedence < needed then .paren loc e else e
  | .unary loc op operand => .unary loc op (operand.grouped UnaryOp.precedence)
  | .paren loc inner => .paren loc (inner.grouped 0)
  | .call loc callee typeArgs args => .call loc callee typeArgs (groupedExprs args)
  | .init loc struct fields => .init loc struct (groupedInits fields)
  | e => e

def groupedExprs : List Expr → List Expr
  | [] => []
  | e :: exprs => e.grouped 0 :: groupedExprs exprs

def groupedInits : List (FieldInit Expr) → List (FieldInit Expr)
  | [] => []
  | ⟨loc, name, value⟩ :: inits => ⟨loc, name, value.grouped 0⟩ :: groupedInits inits

end

mutual

/-- The tokens of a statement in its canonical text. -/
def Stmt.kinds : Stmt → List TokenKind
  | .block body => blockKinds body
  | .letBinding _ name type value =>
    .keyword .letBinding :: .identifier name :: .symbol .colon :: type.kinds ++
      .symbol .assign :: value.kinds 0 ++ [.symbol .semicolon]
  | .assign _ target fields value =>
    chainKinds .dot (target :: fields) ++ .symbol .assign :: value.kinds 0 ++ [.symbol .semicolon]
  | .ifChain _ branches otherwise => branchesKinds .ifBranch branches ++ elseKinds otherwise
  | .whileLoop _ condition body => .keyword .whileLoop :: condition.kinds 0 ++ blockKinds body
  | .returnValue _ none => [.keyword .returnValue, .symbol .semicolon]
  | .returnValue _ (some value) => .keyword .returnValue :: value.kinds 0 ++ [.symbol .semicolon]
  | .breakLoop _ => [.keyword .breakLoop, .symbol .semicolon]
  | .continueLoop _ => [.keyword .continueLoop, .symbol .semicolon]
  | .expression _ value => value.kinds 0 ++ [.symbol .semicolon]
  | .unknown _ => []

def blockKinds : Block Stmt → List TokenKind
  | ⟨_, statements⟩ => .symbol .leftBrace :: stmtsKinds statements ++ [.symbol .rightBrace]

def stmtsKinds : List Stmt → List TokenKind
  | [] => []
  | stmt :: stmts => stmt.kinds ++ stmtsKinds stmts

/-- The branches of a conditional. The first starts with the given word. -/
def branchesKinds (word : Keyword) : List (Branch Expr Stmt) → List TokenKind
  | [] => []
  | ⟨_, condition, body⟩ :: branches =>
    .keyword word :: condition.kinds 0 ++ blockKinds body ++ branchesKinds .elifBranch branches

def elseKinds : Option (Block Stmt) → List TokenKind
  | none => []
  | some body => .keyword .elseBranch :: blockKinds body

end

mutual

/-- The statement with the parentheses that its canonical text adds. -/
def Stmt.grouped : Stmt → Stmt
  | .block body => .block (groupedBlock body)
  | .letBinding loc name type value => .letBinding loc name type (value.grouped 0)
  | .assign loc target fields value => .assign loc target fields (value.grouped 0)
  | .ifChain loc branches otherwise => .ifChain loc (groupedBranches branches) (groupedElse otherwise)
  | .whileLoop loc condition body => .whileLoop loc (condition.grouped 0) (groupedBlock body)
  | .returnValue loc value => .returnValue loc (value.map (Expr.grouped 0))
  | .expression loc value => .expression loc (value.grouped 0)
  | stmt => stmt

def groupedBlock : Block Stmt → Block Stmt
  | ⟨loc, statements⟩ => ⟨loc, groupedStmts statements⟩

def groupedStmts : List Stmt → List Stmt
  | [] => []
  | stmt :: stmts => stmt.grouped :: groupedStmts stmts

def groupedBranches : List (Branch Expr Stmt) → List (Branch Expr Stmt)
  | [] => []
  | ⟨loc, condition, body⟩ :: branches =>
    ⟨loc, condition.grouped 0, groupedBlock body⟩ :: groupedBranches branches

def groupedElse : Option (Block Stmt) → Option (Block Stmt)
  | none => none
  | some body => some (groupedBlock body)

end

def Member.kinds (member : Member TypeExpr) : List TokenKind :=
  .identifier member.name :: .symbol .colon :: member.type.kinds

def typeParamsKinds (names : List String) : List TokenKind :=
  typeListKinds (names.map fun name => [.identifier name])

def Header.kinds (header : Header TypeExpr) : List TokenKind :=
  .identifier header.name :: typeParamsKinds header.typeParams ++
    enclosed (commaKinds (header.params.map Member.kinds)) ++ resultKinds header.result

/-- The tokens of an item in its canonical text. A comma follows every field of a struct. -/
def Item.kinds : Item → List TokenKind
  | .use _ name => [.keyword .use, .identifier name, .symbol .semicolon]
  | .struct _ name fields =>
    .keyword .struct :: .identifier name :: .symbol .leftBrace ::
      fields.flatMap (fun field => field.kinds ++ [.symbol .comma]) ++ [.symbol .rightBrace]
  | .opaqueType _ name typeParams =>
    .keyword .opaqueType :: .identifier name :: typeParamsKinds typeParams ++ [.symbol .semicolon]
  | .function _ header body => .keyword .fn :: header.kinds ++ blockKinds body
  | .builtin _ header => .keyword .builtin :: .keyword .fn :: header.kinds ++ [.symbol .semicolon]
  | .other _ _ => []

def Item.grouped : Item → Item
  | .function loc header body => .function loc header (groupedBlock body)
  | item => item

def nameKinds : Option String → List TokenKind
  | none => []
  | some name => [.keyword .mod, .identifier name, .symbol .semicolon]

/-- The tokens of a module in its canonical text. -/
def Module.kinds (module_ : Module) : List TokenKind :=
  nameKinds module_.name ++ module_.items.flatMap Item.kinds

/-- The module with the parentheses that its canonical text adds. -/
def Module.grouped (module_ : Module) : Module :=
  { module_ with items := module_.items.map Item.grouped }

theorem typesKinds_eq_map (types : List TypeExpr) : typesKinds types = types.map TypeExpr.kinds :=
  eq_map_of_cons rfl fun _ _ => rfl

theorem exprsKinds_eq_map (exprs : List Expr) : exprsKinds exprs = exprs.map (Expr.kinds 0) :=
  eq_map_of_cons rfl fun _ _ => rfl

def FieldInit.kinds (init : FieldInit Expr) : List TokenKind :=
  .identifier init.name :: .symbol .colon :: init.value.kinds 0

theorem initsKinds_eq_map (inits : List (FieldInit Expr)) : initsKinds inits = inits.map FieldInit.kinds :=
  eq_map_of_cons rfl fun _ _ => rfl

theorem stmtsKinds_eq_flatMap (stmts : List Stmt) : stmtsKinds stmts = stmts.flatMap Stmt.kinds :=
  eq_flatMap_of_cons rfl fun _ _ => rfl

end Smpl
