namespace Smpl

/-- The name of a file: what it starts from (nothing, or slashes) and the names on the way. Empty and
    single-dot names are left out, double dots stay. -/
structure PathName where
  root : String
  parts : List String
deriving DecidableEq, Repr, Inhabited

namespace PathName

/-- The slashes that a text starts with. Two of them mean something else than any other number. -/
def rootOf (chars : List Char) : String :=
  match (chars.takeWhile (· = '/')).length with
  | 0 => ""
  | 2 => "//"
  | _ => "/"

/-- Cuts a text at its slashes. -/
def cutSlashes : List Char → List (List Char)
  | [] => [[]]
  | '/' :: rest => [] :: cutSlashes rest
  | c :: rest =>
    match cutSlashes rest with
    | [] => [[c]]
    | first :: others => (c :: first) :: others

/-- The names between the slashes of a text, empty ones included. -/
def components (text : String) : List String :=
  (cutSlashes text.toList).map String.ofList

def ofText (text : String) : PathName :=
  ⟨rootOf text.toList, (components text).filter fun part => part ≠ "" && part ≠ "."⟩

def text (path : PathName) : String :=
  if path.root = "" && path.parts.isEmpty then "."
  else path.root ++ "/".intercalate path.parts

/-- The last name without its suffix. A suffix starts at the last dot, which is neither the first nor
    the last character. -/
def stem (name : List Char) : List Char :=
  let suffix := name.reverse.takeWhile (· ≠ '.')
  let before := (name.reverse.drop (suffix.length + 1)).reverse
  if suffix.isEmpty || before.isEmpty then name else before

/-- Replaces the suffix of the last name, or adds one. -/
def withSuffix (path : PathName) (suffix : String) : PathName :=
  match path.parts.getLast? with
  | none => path
  | some name =>
    { path with parts := path.parts.dropLast ++ [String.ofList (stem name.toList) ++ suffix] }

end PathName

/-- The file to write to if none is given: the first input with another suffix. If that is an input
    too, the suffix gets longer. -/
def defaultOutput (first : PathName) (inputs : List PathName) (extension : String) : PathName :=
  let output := first.withSuffix extension
  if inputs.contains output then first.withSuffix (".out" ++ extension) else output

end Smpl
