import Smpl.Diagnostic.Basic
import Smpl.Token.Basic

namespace Smpl

/-- The largest value of an integer literal. -/
def maxInteger : Nat := Nat.pow 2 63 - 1

def isBlank (c : Char) : Bool :=
  c = ' ' || c = '\t' || c = '\n' || c = '\r'

def isIdentifierStart (c : Char) : Bool :=
  c.isAlpha || c = '_'

def isIdentifierPart (c : Char) : Bool :=
  c.isAlphanum || c = '_'

/-- Why a text cannot be split any further. -/
inductive ScanReason
  | cause (cause : Cause)
  | digitLimit (digits : Nat)
deriving DecidableEq, Repr

/-- A scan that failed: the reason, the text from the start of the piece up to the place that is to
    blame, and the text that had been read when the fault was found. -/
structure ScanFault where
  reason : ScanReason
  before : List Char
  consumed : List Char
  quotesLine : Bool
deriving DecidableEq, Repr

/-- What stands at the start of a text: something to skip, a token, or neither. -/
inductive Piece
  | trivia (text : List Char)
  | token (kind : TokenKind) (lexeme : List Char)
  | fault (fault : ScanFault)
deriving DecidableEq, Repr

/-- The rest of a block comment after its opening, closing marks included. -/
def closeComment : List Char → Option (List Char)
  | [] => none
  | '*' :: '/' :: _ => some ['*', '/']
  | c :: rest => (closeComment rest).map (c :: ·)

/-- The character that an escape sequence denotes. -/
def escapeValue? : Char → Option Char
  | 'n' => some '\n'
  | 'r' => some '\r'
  | 't' => some '\t'
  | '\\' => some '\\'
  | '"' => some '"'
  | '0' => some '\x00'
  | _ => none

/-- How the inside of a string literal ends, with the text read so far. A literal that is closed has
    a value; an unknown escape is reported at its backslash. -/
inductive StringEnd
  | closed (value text : List Char)
  | unclosed (text : List Char)
  | unknownEscape (escaped : String) (before text : List Char)
deriving DecidableEq, Repr

/-- Puts a character in front of what was read of a string literal. -/
def StringEnd.prepend (value : Char) (text : List Char) : StringEnd → StringEnd
  | .closed values read => .closed (value :: values) (text ++ read)
  | .unclosed read => .unclosed (text ++ read)
  | .unknownEscape escaped before read => .unknownEscape escaped (text ++ before) (text ++ read)

/-- Reads the inside of a string literal and its closing quote. -/
def scanString : List Char → StringEnd
  | [] => .unclosed []
  | '"' :: _ => .closed [] ['"']
  | '\n' :: _ => .unclosed []
  | ['\\'] => .unknownEscape "" [] ['\\']
  | '\\' :: c :: rest =>
    match escapeValue? c with
    | some value => (scanString rest).prepend value ['\\', c]
    | none => .unknownEscape (String.singleton c) [] ['\\', c]
  | c :: rest => (scanString rest).prepend c [c]

namespace Piece

/-- A reserved word, or else a name. -/
def ofIdentifier (lexeme : List Char) : Piece :=
  let name := String.ofList lexeme
  match Keyword.ofSpelling? name with
  | some word => .token (.keyword word) lexeme
  | none => .token (.identifier name) lexeme

/-- A run of digits as an integer literal. -/
def ofInteger (digits : List Char) : Piece :=
  if maxDigits < digits.length then .fault ⟨.digitLimit digits.length, [], digits, false⟩
  else
    let value := Nat.ofDigitChars 10 digits 0
    if value ≤ maxInteger then .token (.integer value) digits
    else .fault ⟨.cause (.integerOutOfRange (String.ofList digits)), [], digits, true⟩

/-- Two runs of digits with a point between them as a float literal. -/
def ofFloat (whole fraction : List Char) : Piece :=
  let lexeme := whole ++ '.' :: fraction
  let value := Double.ofDigits whole fraction
  if value.isInfinite then .fault ⟨.cause (.floatOutOfRange (String.ofList lexeme)), [], lexeme, true⟩
  else .token (.float value) lexeme

/-- A literal that starts with a run of digits. A point belongs to it only with a digit after it. -/
def ofNumber (whole : List Char) : List Char → Piece
  | '.' :: d :: rest =>
    if d.isDigit then ofFloat whole (d :: rest.takeWhile Char.isDigit) else ofInteger whole
  | _ => ofInteger whole

/-- A string literal whose opening quote has been read. -/
def ofString (rest : List Char) : Piece :=
  match scanString rest with
  | .closed value text => .token (.string (String.ofList value)) ('"' :: text)
  | .unclosed text => .fault ⟨.cause .unterminatedString, [], '"' :: text, true⟩
  | .unknownEscape escaped before text =>
    .fault ⟨.cause (.unknownEscape escaped), '"' :: before, '"' :: text, true⟩

/-- The operator or punctuation that starts with `c`, the longer one if there are two. -/
def ofSymbol (c : Char) (rest : List Char) : Piece :=
  match rest.head?.bind (Symbol.ofPair? c), rest with
  | some mark, next :: _ => .token (.symbol mark) [c, next]
  | _, _ =>
    match Symbol.ofChar? c with
    | some mark => .token (.symbol mark) [c]
    | none => .fault ⟨.cause (.invalidCharacter c), [], [], true⟩

/-- The piece at the start of a non-empty text. -/
def scan (c : Char) (rest : List Char) : Piece :=
  if isBlank c then .trivia [c]
  else if isIdentifierStart c then ofIdentifier (c :: rest.takeWhile isIdentifierPart)
  else if c.isDigit then
    ofNumber (c :: rest.takeWhile Char.isDigit) (rest.dropWhile Char.isDigit)
  else
    match c, rest with
    | '"', _ => ofString rest
    | '/', '/' :: rest => .trivia ('/' :: '/' :: rest.takeWhile (· ≠ '\n'))
    | '/', '*' :: rest =>
      match closeComment rest with
      | some text => .trivia ('/' :: '*' :: text)
      | none => .fault ⟨.cause .unterminatedComment, [], '/' :: '*' :: rest, false⟩
    | _, _ => ofSymbol c rest

end Piece

end Smpl
