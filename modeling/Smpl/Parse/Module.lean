import Smpl.Location
import Smpl.Parse.Stmt

namespace Smpl

namespace Parse

/-- Reads a struct field or a parameter. -/
def member (expected : Expected) (budget : Nat) (tokens : Tokens) : Reading (Member TypeExpr × Tokens) := do
  let ((name, loc), rest) ← identifier expected tokens
  let (_, rest) ← symbol .colon .colon rest
  let (type, rest) ← typeExpr budget rest
  .ok (⟨loc, name, type⟩, rest)

/-- Reads the name of a type parameter. -/
def typeParam (tokens : Tokens) : Reading (String × Tokens) := do
  let ((name, _), rest) ← identifier .typeParamName tokens
  .ok (name, rest)

/-- Reads a function's name, type parameters, parameters and result type. -/
def header (budget : Nat) (tokens : Tokens) : Reading (Header TypeExpr × Tokens) := do
  let ((name, _), rest) ← identifier .functionName tokens
  let (typeParams, rest) ← typeList typeParam budget rest
  let (_, rest) ← symbol .leftParen .leftParen rest
  let (params, rest) ← commaList .rightParen (member .paramName budget) budget rest
  let (_, rest) ← symbol .rightParen .rightParen rest
  let (result, rest) ← arrowType (typeExpr budget) rest
  .ok (⟨name, typeParams, params, result⟩, rest)

/-- Takes the word `fn` of a builtin function. -/
def fnAfterBuiltin : Tokens → Reading (Unit × Tokens)
  | ⟨.keyword .fn, _, _⟩ :: rest => .ok ((), rest)
  | tokens => missing .fnAfterBuiltin tokens

/-- Reads a top-level item. -/
def item (budget : Nat) (tokens : Tokens) : Reading (Item × Tokens) :=
  match tokens with
  | ⟨.keyword .use, _, loc⟩ :: rest => do
    let ((name, _), rest) ← identifier .moduleName rest
    let (_, rest) ← symbol .semicolon .semicolon rest
    .ok (.use loc name, rest)
  | ⟨.keyword .struct, _, loc⟩ :: rest => do
    let ((name, _), rest) ← identifier .structName rest
    let (_, rest) ← symbol .leftBrace .leftBrace rest
    let (fields, rest) ← commaList .rightBrace (member .fieldName budget) budget rest
    let (_, rest) ← symbol .rightBrace .rightBrace rest
    .ok (.struct loc name fields, rest)
  | ⟨.keyword .opaqueType, _, loc⟩ :: rest => do
    let ((name, _), rest) ← identifier .opaqueName rest
    let (typeParams, rest) ← typeList typeParam budget rest
    let (_, rest) ← symbol .semicolon .semicolon rest
    .ok (.opaqueType loc name typeParams, rest)
  | ⟨.keyword .fn, _, loc⟩ :: rest => do
    let (header, rest) ← header budget rest
    let (body, rest) ← block budget rest
    .ok (.function loc header body, rest)
  | ⟨.keyword .builtin, _, loc⟩ :: rest => do
    let (_, rest) ← fnAfterBuiltin rest
    let (header, rest) ← header budget rest
    let (_, rest) ← symbol .semicolon .semicolon rest
    .ok (.builtin loc header, rest)
  | _ => unexpected .item tokens

/-- Reads items up to the end of the tokens. -/
def items (item : Tokens → Reading (Item × Tokens)) : Nat → Tokens → Except ParseFault (List Item)
  | 0, _ => .ok []
  | rounds + 1, tokens =>
    if tokens.isEmpty then .ok []
    else do
      let (first, rest) ← item tokens
      let others ← items item rounds rest
      .ok (first :: others)

/-- Reads the declaration of the module's name, if there is one. -/
def moduleName : Tokens → Reading (Option String × Tokens)
  | ⟨.keyword .mod, _, _⟩ :: rest => do
    let ((name, _), rest) ← identifier .moduleName rest
    let (_, rest) ← symbol .semicolon .semicolon rest
    .ok (some name, rest)
  | tokens => .ok (none, tokens)

end Parse

/-- Reads the tokens of a file as a module. The module starts where its first token does, or at the
    end of an empty file. -/
def Module.ofTokens (file : String) (stream : TokenStream) : Except ParseFault Module := do
  let budget := stream.tokens.length
  let loc := (stream.tokens.head?.map (·.location)).getD stream.finish
  let (name, rest) ← Parse.moduleName stream.tokens
  let items ← Parse.items (Parse.item budget) budget rest
  .ok { loc, name, items, file }

/-- Reads the tokens of a file as a module. Diagnostics quote the given lines. -/
def Module.parse (file : String) (stream : TokenStream) (lines : List String) : Except Failure Module :=
  (Module.ofTokens file stream).mapError fun fault =>
    .diagnostic (fault.diagnostic stream.finish lines)

/-- The lines of a source text that diagnostics of the parser quote. -/
def sourceLines (source : String) : List String :=
  (Text.lines source.toList).map String.ofList

/-- Reads a source text as a module. -/
def Module.ofSource (file source : String) : Except Failure Module := do
  let stream ← tokenize file source.toList
  Module.parse file stream (sourceLines source)

end Smpl
