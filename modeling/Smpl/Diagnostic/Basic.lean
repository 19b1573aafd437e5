import Smpl.Diagnostic.Cause
import Smpl.Sorting
import Smpl.Syntax.Foreign

namespace Smpl

/-- A message about a program: what is wrong, where, and the line of text it points into. -/
structure Diagnostic where
  cause : Cause
  location : Option Location := none
  sourceLine : Option String := none
deriving DecidableEq, Repr

/-- The quoted line and a caret under the column. Columns before the first get no caret. -/
def quotedLine (loc : Location) (line : String) : List String :=
  let shown := "    " ++ line
  if 0 < loc.column then [shown, String.ofList (List.replicate (loc.column.toNat + 3) ' ' ++ ['^'])]
  else [shown]

/-- The full text of a diagnostic. -/
def Diagnostic.text (d : Diagnostic) : String :=
  let headline :=
    match d.location with
    | some loc => loc.text ++ ": error: " ++ d.cause.message
    | none => "error: " ++ d.cause.message
  let quoted :=
    match d.location, d.sourceLine with
    | some loc, some line => quotedLine loc line
    | _, _ => []
  let advice :=
    match d.cause.hint with
    | some hint => if hint = "" then [] else ["hint: " ++ hint]
    | none => []
  "\n".intercalate (headline :: quoted ++ advice)

/-- A failure that says nothing about the program: a tree that no text could give, a look-up of
    something that was never registered, values that cannot be used, or a limit of the number reader. -/
inductive Defect
  | digitLimit (digits : Nat)
  | unknownExpression (node : Foreign)
  | unknownStatement (node : Foreign)
  | unknownTypeExpr (node : Foreign)
  | unknownUnary
  | missingPart (part : String)
  | missingKey (key : Option String)
  | missingArgument
  | missingTypeArgument
  | backendTaken (id : Scalar) (name : String)
  | incomparable (kinds : Incomparable)
  | notOneCharacter (length : Nat)
  | notInteger (text : String)
  | notOperator (spelling kind : String)
deriving DecidableEq, Repr

/-- The longest run of decimal digits that is read as one integer. -/
def maxDigits : Nat := 4300

def Defect.text : Defect → String
  | .digitLimit digits =>
    "Exceeds the limit (" ++ toString maxDigits ++ " digits) for integer string conversion: value has " ++
      toString digits ++ " digits; use sys.set_int_max_str_digits() to increase the limit"
  | .unknownExpression node => "unknown expression " ++ node.display
  | .unknownStatement node => "unknown statement " ++ node.display
  | .unknownTypeExpr node => "unknown type annotation " ++ node.display
  | .unknownUnary => "unknown unary operator None"
  | .missingPart part => "'NoneType' object has no attribute '" ++ part ++ "'"
  | .missingKey (some key) => Text.display key
  | .missingKey none => "None"
  | .missingArgument => "list index out of range"
  | .missingTypeArgument => "tuple index out of range"
  | .backendTaken id name => "backend id " ++ id.shown ++ " already registered for '" ++ name ++ "'"
  | .incomparable kinds =>
    "'<' not supported between instances of '" ++ kinds.left ++ "' and '" ++ kinds.right ++ "'"
  | .notOneCharacter length =>
    "ord() expected a character, but string of length " ++ toString length ++ " found"
  | .notInteger text => "invalid literal for int() with base 10: " ++ Text.display text
  | .notOperator spelling kind => Text.display spelling ++ " is not a valid " ++ kind

/-- Why a request has no answer. -/
inductive Failure
  | diagnostic (d : Diagnostic)
  | defect (d : Defect)
deriving DecidableEq, Repr

def Failure.text : Failure → String
  | .diagnostic d => d.text
  | .defect d => d.text

/-- The cause for a backend that is not among those available, which must have an order. -/
def Cause.ofBackend (id : Scalar) (available : List Scalar) : Except Failure Cause :=
  match Sorting.sort Scalar.before available with
  | .ok sorted => .ok (.unknownBackend id sorted)
  | .error kinds => .error (.defect (.incomparable kinds))

/-- The cause for a text that starts no token, which must be a single character. -/
def Cause.ofCharacter (text : String) : Except Failure Cause :=
  match text.toList with
  | [c] => .ok (.invalidCharacter c)
  | chars => .error (.defect (.notOneCharacter chars.length))

/-- Refuses the program at a place. -/
def refuse {α : Type} (cause : Cause) (loc : Location) : Except Failure α :=
  .error (.diagnostic { cause, location := some loc })

end Smpl
