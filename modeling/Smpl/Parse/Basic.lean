import Smpl.Diagnostic.Basic
import Smpl.Syntax.Path
import Smpl.Token.Display
import Smpl.Token.Stream

namespace Smpl

/-- What the grammar asks for at a place. -/
inductive Expected
  | moduleName
  | semicolon
  | item
  | structName
  | leftBrace
  | rightBrace
  | fieldName
  | colon
  | opaqueName
  | fnAfterBuiltin
  | functionName
  | leftParen
  | rightParen
  | typeParamName
  | paramName
  | arraySemicolon
  | arrayLength
  | rightBracket
  | type
  | name
  | nameAfterColons
  | bindingName
  | colonAndType
  | assign
  | semicolonNotAssign
  | callParen
  | initBrace
  | expression
deriving DecidableEq, Repr

def Expected.text : Expected → String
  | .moduleName => "module name"
  | .semicolon => "';'"
  | .item => "'use', 'fn', 'struct', 'opaque' or 'builtin'"
  | .structName => "struct name"
  | .leftBrace => "'\x7b'"
  | .rightBrace => "'\x7d'"
  | .fieldName => "field name"
  | .colon => "':'"
  | .opaqueName => "opaque type name"
  | .fnAfterBuiltin => "'fn' after 'builtin'"
  | .functionName => "function name"
  | .leftParen => "'('"
  | .rightParen => "')'"
  | .typeParamName => "type parameter name"
  | .paramName => "parameter name"
  | .arraySemicolon => "';' in array type"
  | .arrayLength => "array length"
  | .rightBracket => "']'"
  | .type => "type"
  | .name => "name"
  | .nameAfterColons => "name after '::'"
  | .bindingName => "binding name"
  | .colonAndType => "':' and a type"
  | .assign => "'='"
  | .semicolonNotAssign => "';' (only a binding or field can be assigned)"
  | .callParen => "'(' and call arguments"
  | .initBrace => "'\x7b' to start struct fields"
  | .expression => "expression"

/-- Why tokens are no sentence: one required token is not there, no construct starts with the token
    that is there, or an array is declared empty. -/
inductive FaultKind
  | missing (expected : Expected)
  | unexpected (expected : Expected)
  | emptyArray
deriving DecidableEq, Repr

abbrev Tokens := List Token

/-- A parse that failed at the first of the remaining tokens, or at the end if there are none. -/
structure ParseFault where
  kind : FaultKind
  rest : Tokens
deriving DecidableEq, Repr

/-- The outcome of reading off the front of a token list. What was read comes with the tokens after
    it. -/
abbrev Reading := Except ParseFault

namespace Parse

def missing {α : Type} (expected : Expected) (tokens : Tokens) : Reading (α × Tokens) :=
  .error ⟨.missing expected, tokens⟩

def unexpected {α : Type} (expected : Expected) (tokens : Tokens) : Reading (α × Tokens) :=
  .error ⟨.unexpected expected, tokens⟩

/-- Takes one operator or punctuation mark. -/
def symbol (mark : Symbol) (expected : Expected) : Tokens → Reading (Location × Tokens)
  | ⟨.symbol found, lexeme, loc⟩ :: rest =>
    if found = mark then .ok (loc, rest) else missing expected (⟨.symbol found, lexeme, loc⟩ :: rest)
  | tokens => missing expected tokens

/-- Takes a name. -/
def identifier (expected : Expected) : Tokens → Reading ((String × Location) × Tokens)
  | ⟨.identifier name, _, loc⟩ :: rest => .ok ((name, loc), rest)
  | tokens => missing expected tokens

/-- Whether the next token is that mark. -/
def startsWith (mark : Symbol) : Tokens → Bool
  | ⟨.symbol found, _, _⟩ :: _ => found = mark
  | _ => false

/-- Reads elements separated by commas up to a closing mark, which is left. A comma may stand
    before it. Every round takes a token, so a budget of the token count never runs out. -/
def commaList {α : Type} (closer : Symbol) (element : Tokens → Reading (α × Tokens)) :
    Nat → Tokens → Reading (List α × Tokens)
  | 0, tokens =>
    if startsWith closer tokens then .ok ([], tokens)
    else do
      let (first, rest) ← element tokens
      .ok ([first], rest)
  | budget + 1, tokens =>
    if startsWith closer tokens then .ok ([], tokens)
    else do
      let (first, rest) ← element tokens
      match rest with
      | ⟨.symbol .comma, _, _⟩ :: rest => do
        let (others, rest) ← commaList closer element budget rest
        .ok (first :: others, rest)
      | rest => .ok ([first], rest)

/-- Reads a list in parentheses that starts with the word `type`, if one is there. Its first
    element is required. -/
def typeList {α : Type} (element : Tokens → Reading (α × Tokens)) (budget : Nat) :
    Tokens → Reading (List α × Tokens)
  | ⟨.symbol .leftParen, _, _⟩ :: ⟨.keyword .type, _, _⟩ :: rest => do
    let (first, rest) ← element rest
    let (others, rest) ←
      match rest with
      | ⟨.symbol .comma, _, _⟩ :: rest => commaList .rightParen element budget rest
      | rest => .ok ([], rest)
    let (_, rest) ← symbol .rightParen .rightParen rest
    .ok (first :: others, rest)
  | tokens => .ok ([], tokens)

/-- The names after the first one of a path. -/
def pathTail : Tokens → Reading (List String × Tokens)
  | ⟨.symbol .colonColon, _, _⟩ :: ⟨.identifier name, _, _⟩ :: rest => do
    let (names, rest) ← pathTail rest
    .ok (name :: names, rest)
  | ⟨.symbol .colonColon, _, _⟩ :: rest => missing .nameAfterColons rest
  | tokens => .ok ([], tokens)

def path (tokens : Tokens) : Reading (Path × Tokens) := do
  let ((first, _), rest) ← identifier .name tokens
  let (names, rest) ← pathTail rest
  .ok (Path.ofSegments (first :: names), rest)

end Parse

/-- The diagnostic for a fault in a file that ends at `finish`, quoting the line it points into when
    the given lines reach that far. -/
def ParseFault.diagnostic (fault : ParseFault) (finish : Location) (lines : List String) :
    Diagnostic :=
  let next := fault.rest.head?
  let found := describeToken next
  let loc := (next.map (·.location)).getD finish
  { cause :=
      match fault.kind with
      | .missing expected => .missingToken expected.text (some found)
      | .unexpected expected => .unexpectedToken found (some expected.text)
      | .emptyArray => .emptyArray
    location := some loc
    sourceLine := if 0 < loc.line then lines[loc.line.toNat - 1]? else none }

end Smpl
