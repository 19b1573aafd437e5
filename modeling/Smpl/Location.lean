namespace Smpl

/-- A place in a source file. Lines and columns of text that was read count from one; trees made
    by hand may carry any numbers. -/
structure Location where
  file : String
  line : Int
  column : Int
deriving DecidableEq, Repr, Inhabited

/-- The form in which diagnostics name a place. -/
def Location.text (loc : Location) : String :=
  loc.file ++ ":" ++ toString loc.line ++ ":" ++ toString loc.column

/-- The place that many columns further on the same line. -/
def Location.right (loc : Location) (columns : Int) : Location :=
  { loc with column := loc.column + columns }

namespace Text

/-- The characters that end a line of quoted source text. -/
def isLineBreak (c : Char) : Bool :=
  ['\n', '\r', '\x0b', '\x0c', '\x1c', '\x1d', '\x1e', '\x85', '\u2028', '\u2029'].contains c

/-- The lines of a text without their breaks. A return with a line feed after it is one break, and
    a break at the end starts no further line. -/
def lines : List Char → List (List Char)
  | [] => []
  | '\r' :: '\n' :: rest => [] :: lines rest
  | c :: rest =>
    if isLineBreak c then [] :: lines rest
    else
      match lines rest with
      | [] => [[c]]
      | line :: others => (c :: line) :: others

/-- Line breaks of files as the language sees them: a return, with or without a line feed, is a
    line feed. -/
def unifyBreaks : List Char → List Char
  | [] => []
  | '\r' :: '\n' :: rest => '\n' :: unifyBreaks rest
  | '\r' :: rest => '\n' :: unifyBreaks rest
  | c :: rest => c :: unifyBreaks rest

end Text

end Smpl
