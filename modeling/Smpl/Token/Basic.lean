import Smpl.Double.Text
import Smpl.Location
import Smpl.Text.Display

namespace Smpl

/-- The reserved words. -/
inductive Keyword
  | mod
  | use
  | fn
  | struct
  | opaqueType
  | builtin
  | type
  | letBinding
  | ifBranch
  | elifBranch
  | elseBranch
  | whileLoop
  | returnValue
  | breakLoop
  | continueLoop
  | init
  | trueValue
  | falseValue
deriving DecidableEq, Repr

namespace Keyword

def spelling : Keyword → String
  | .mod => "mod"
  | .use => "use"
  | .fn => "fn"
  | .struct => "struct"
  | .opaqueType => "opaque"
  | .builtin => "builtin"
  | .type => "type"
  | .letBinding => "let"
  | .ifBranch => "if"
  | .elifBranch => "elif"
  | .elseBranch => "else"
  | .whileLoop => "while"
  | .returnValue => "return"
  | .breakLoop => "break"
  | .continueLoop => "continue"
  | .init => "init"
  | .trueValue => "true"
  | .falseValue => "false"

def all : List Keyword :=
  [.mod, .use, .fn, .struct, .opaqueType, .builtin, .type, .letBinding, .ifBranch, .elifBranch,
    .elseBranch, .whileLoop, .returnValue, .breakLoop, .continueLoop, .init, .trueValue, .falseValue]

/-- The reserved word with that spelling, if there is one. -/
def ofSpelling? (word : String) : Option Keyword :=
  all.find? fun keyword => keyword.spelling = word

end Keyword

/-- Operators and punctuation. -/
inductive Symbol
  | plus
  | minus
  | star
  | slash
  | percent
  | equal
  | notEqual
  | less
  | greater
  | lessEqual
  | greaterEqual
  | and
  | or
  | not
  | ampersand
  | assign
  | arrow
  | leftParen
  | rightParen
  | leftBrace
  | rightBrace
  | leftBracket
  | rightBracket
  | semicolon
  | comma
  | colon
  | colonColon
  | dot
deriving DecidableEq, Repr

namespace Symbol

def spelling : Symbol → String
  | .plus => "+"
  | .minus => "-"
  | .star => "*"
  | .slash => "/"
  | .percent => "%"
  | .equal => "=="
  | .notEqual => "!="
  | .less => "<"
  | .greater => ">"
  | .lessEqual => "<="
  | .greaterEqual => ">="
  | .and => "&&"
  | .or => "||"
  | .not => "!"
  | .ampersand => "&"
  | .assign => "="
  | .arrow => "->"
  | .leftParen => "("
  | .rightParen => ")"
  | .leftBrace => "\x7b"
  | .rightBrace => "\x7d"
  | .leftBracket => "["
  | .rightBracket => "]"
  | .semicolon => ";"
  | .comma => ","
  | .colon => ":"
  | .colonColon => "::"
  | .dot => "."

/-- The symbol spelled by one character. -/
def ofChar? : Char → Option Symbol
  | '+' => some .plus
  | '-' => some .minus
  | '*' => some .star
  | '/' => some .slash
  | '%' => some .percent
  | '<' => some .less
  | '>' => some .greater
  | '!' => some .not
  | '&' => some .ampersand
  | '=' => some .assign
  | '(' => some .leftParen
  | ')' => some .rightParen
  | '\x7b' => some .leftBrace
  | '\x7d' => some .rightBrace
  | '[' => some .leftBracket
  | ']' => some .rightBracket
  | ';' => some .semicolon
  | ',' => some .comma
  | ':' => some .colon
  | '.' => some .dot
  | _ => none

/-- The symbol spelled by two characters. It is preferred to the one of the first character. -/
def ofPair? : Char → Char → Option Symbol
  | '=', '=' => some .equal
  | '!', '=' => some .notEqual
  | '<', '=' => some .lessEqual
  | '>', '=' => some .greaterEqual
  | '&', '&' => some .and
  | '|', '|' => some .or
  | ':', ':' => some .colonColon
  | '-', '>' => some .arrow
  | _, _ => none

end Symbol

/-- What a token is, with the value that a name or literal denotes. -/
inductive TokenKind
  | identifier (name : String)
  | integer (value : Nat)
  | float (value : Double)
  | string (value : String)
  | keyword (word : Keyword)
  | symbol (mark : Symbol)
deriving DecidableEq, Repr

/-- A token with the text it was read from and the place where that starts. -/
structure Token where
  kind : TokenKind
  lexeme : String
  location : Location
deriving DecidableEq, Repr

end Smpl
