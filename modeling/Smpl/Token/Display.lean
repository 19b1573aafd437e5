import Smpl.Token.Basic

namespace Smpl

/-- The name of a keyword's token class. -/
def Keyword.label (word : Keyword) : String :=
  String.ofList (word.spelling.toList.map Char.toUpper)

/-- The name of a symbol's token class. -/
def Symbol.label : Symbol → String
  | .plus => "PLUS"
  | .minus => "MINUS"
  | .star => "STAR"
  | .slash => "SLASH"
  | .percent => "PERCENT"
  | .equal => "EQ"
  | .notEqual => "NE"
  | .less => "LT"
  | .greater => "GT"
  | .lessEqual => "LE"
  | .greaterEqual => "GE"
  | .and => "AND"
  | .or => "OR"
  | .not => "NOT"
  | .ampersand => "AMPERSAND"
  | .assign => "ASSIGN"
  | .arrow => "ARROW"
  | .leftParen => "LPAREN"
  | .rightParen => "RPAREN"
  | .leftBrace => "LBRACE"
  | .rightBrace => "RBRACE"
  | .leftBracket => "LBRACKET"
  | .rightBracket => "RBRACKET"
  | .semicolon => "SEMICOLON"
  | .comma => "COMMA"
  | .colon => "COLON"
  | .colonColon => "COLON_COLON"
  | .dot => "DOT"

/-- The name of a token class. -/
def TokenKind.label : TokenKind → String
  | .identifier _ => "IDENTIFIER"
  | .integer _ => "INTEGER"
  | .float _ => "FLOAT"
  | .string _ => "STRING"
  | .keyword word => word.label
  | .symbol mark => mark.label

/-- The display form of the value that a token denotes. -/
def TokenKind.shownValue : TokenKind → String
  | .identifier name => Text.display name
  | .integer value => toString value
  | .float value => value.display
  | .string value => Text.display value
  | .keyword .trueValue => "True"
  | .keyword .falseValue => "False"
  | .keyword word => Text.display word.spelling
  | .symbol mark => Text.display mark.spelling

/-- The line and column of a display form. -/
def Location.shownPosition (loc : Location) : String :=
  toString loc.line ++ ":" ++ toString loc.column

/-- The display form of a token. -/
def Token.display (token : Token) : String :=
  "Token(" ++ token.kind.label ++ ", " ++ token.kind.shownValue ++ ", " ++
    token.location.shownPosition ++ ")"

/-- The display form of the end of a file. -/
def displayEnd (loc : Location) : String :=
  "Token(EOF, " ++ loc.shownPosition ++ ")"

/-- How messages name the next token, if there is one. -/
def describeToken : Option Token → String
  | some token => token.lexeme
  | none => "end of file"

end Smpl
