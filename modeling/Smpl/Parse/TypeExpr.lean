import Smpl.Parse.Basic
import Smpl.Syntax.Tree

namespace Smpl.Parse

/-- Reads the result type after an arrow, if there is an arrow. -/
def arrowType (type : Tokens → Reading (TypeExpr × Tokens)) : Tokens → Reading (Option TypeExpr × Tokens)
  | ⟨.symbol .arrow, _, _⟩ :: rest => do
    let (result, rest) ← type rest
    .ok (some result, rest)
  | tokens => .ok (none, tokens)

/-- Reads the length of an array type and its closing bracket. -/
def arrayEnd (tokens : Tokens) : Reading (Nat × Tokens) :=
  match tokens with
  | ⟨.integer length, _, _⟩ :: rest =>
    if length = 0 then .error ⟨.emptyArray, tokens⟩
    else do
      let (_, rest) ← symbol .rightBracket .rightBracket rest
      .ok (length, rest)
  | _ => missing .arrayLength tokens

/-- Reads a written type. Every level of nesting takes a token, so a budget of the token count
    never runs out. -/
def typeExpr : Nat → Tokens → Reading (TypeExpr × Tokens)
  | 0, tokens => unexpected .type tokens
  | budget + 1, tokens =>
    match tokens with
    | ⟨.symbol .leftBracket, _, loc⟩ :: rest => do
      let (element, rest) ← typeExpr budget rest
      let (_, rest) ← symbol .semicolon .arraySemicolon rest
      let (length, rest) ← arrayEnd rest
      .ok (.array loc element length, rest)
    | ⟨.keyword .fn, _, loc⟩ :: rest => do
      let (_, rest) ← symbol .leftParen .leftParen rest
      let (params, rest) ← commaList .rightParen (typeExpr budget) budget rest
      let (_, rest) ← symbol .rightParen .rightParen rest
      let (result, rest) ← arrowType (typeExpr budget) rest
      .ok (.function loc params result, rest)
    | ⟨.identifier _, _, loc⟩ :: _ => do
      let (path, rest) ← path tokens
      let (args, rest) ← typeList (typeExpr budget) budget rest
      .ok (.named loc path args, rest)
    | _ => unexpected .type tokens

end Smpl.Parse
