import Smpl.Token.Scan

namespace Smpl

/-- A place in a text that is being read: what is left, the line and column, and the text from the
    start of the current line on. -/
structure Cursor where
  rest : List Char
  line : Nat
  column : Nat
  lineStart : List Char
deriving DecidableEq, Repr

namespace Cursor

def start (source : List Char) : Cursor :=
  ⟨source, 1, 1, source⟩

/-- Moves over one character. Only a line feed ends a line. -/
def step (cursor : Cursor) (c : Char) : Cursor :=
  let rest := cursor.rest.tail
  if c = '\n' then ⟨rest, cursor.line + 1, 1, rest⟩
  else ⟨rest, cursor.line, cursor.column + 1, cursor.lineStart⟩

def past (cursor : Cursor) (text : List Char) : Cursor :=
  text.foldl step cursor

def location (cursor : Cursor) (file : String) : Location :=
  ⟨file, cursor.line, cursor.column⟩

/-- The whole text of the current line. -/
def currentLine (cursor : Cursor) : List Char :=
  cursor.lineStart.takeWhile (· ≠ '\n')

end Cursor

/-- The failure that a fault stands for when the scan started at a cursor. -/
def ScanFault.failure (file : String) (cursor : Cursor) (fault : ScanFault) : Failure :=
  match fault.reason with
  | .digitLimit digits => .defect (.digitLimit digits)
  | .cause cause =>
    let line := String.ofList (cursor.past fault.consumed).currentLine
    .diagnostic
      { cause
        location := some ((cursor.past fault.before).location file)
        sourceLine := if fault.quotesLine then some line else none }

/-- The tokens read from a text, and either the place where it ends or why reading stopped. -/
structure Lexed where
  tokens : List Token
  ending : Except Failure Location

/-- Reads tokens from a cursor on. Every piece takes at least one character, so a budget of the
    length of the rest never runs out before the text does. -/
def lexFrom (file : String) : Nat → Cursor → Lexed
  | 0, cursor => ⟨[], .ok (cursor.location file)⟩
  | budget + 1, cursor =>
    match cursor.rest with
    | [] => ⟨[], .ok (cursor.location file)⟩
    | c :: rest =>
      match Piece.scan c rest with
      | .trivia text => lexFrom file budget (cursor.past text)
      | .token kind lexeme =>
        let lexed := lexFrom file budget (cursor.past lexeme)
        ⟨⟨kind, String.ofList lexeme, cursor.location file⟩ :: lexed.tokens, lexed.ending⟩
      | .fault fault => ⟨[], .error (fault.failure file cursor)⟩

/-- Reads the tokens of a text. -/
def lex (file : String) (source : List Char) : Lexed :=
  lexFrom file source.length (Cursor.start source)

/-- The tokens of a text, which has been read to its end, and the place of that end. -/
structure TokenStream where
  tokens : List Token
  finish : Location
deriving DecidableEq, Repr

/-- All tokens of a text, or why it has none. -/
def tokenize (file : String) (source : List Char) : Except Failure TokenStream :=
  let lexed := lex file source
  lexed.ending.map fun finish => ⟨lexed.tokens, finish⟩

/-- How many tokens a stream counts as: the end of the file is one. -/
def TokenStream.count (stream : TokenStream) : Nat :=
  stream.tokens.length + 1

end Smpl
