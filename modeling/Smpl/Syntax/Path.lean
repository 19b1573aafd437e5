namespace Smpl

/-- A name with the modules in front of it, the outermost first. There is always a last name. Trees
    made by hand may miss a path; what stands in its place is marked. -/
structure Path where
  modules : List String
  name : String
  isMissing : Bool := false
deriving DecidableEq, Repr, Inhabited

namespace Path

def bare (name : String) : Path where
  modules := []
  name := name

/-- What is shown for a path that is not there. -/
def missing : Path where
  modules := []
  name := "None"
  isMissing := true

def segments (path : Path) : List String :=
  path.modules ++ [path.name]

def isQualified (path : Path) : Bool :=
  !path.modules.isEmpty

def text (path : Path) : String :=
  "::".intercalate path.segments

/-- Cuts a text at every pair of colons, from the left. -/
def cut : List Char → List (List Char)
  | [] => [[]]
  | ':' :: ':' :: rest => [] :: cut rest
  | c :: rest =>
    match cut rest with
    | [] => [[c]]
    | first :: others => (c :: first) :: others

/-- The path with the given segments. -/
def ofSegments (segments : List String) : Path where
  modules := segments.dropLast
  name := segments.getLastD ""

/-- The path with that spelling. -/
def ofText (text : String) : Path :=
  ofSegments ((cut text.toList).map String.ofList)

end Path

end Smpl
