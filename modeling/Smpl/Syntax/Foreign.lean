import Smpl.Location
import Smpl.Text.Display

namespace Smpl

/-- What a tree may hold where no text puts it: nothing at all, or a node of which only the general
    kind is known. -/
inductive Foreign
  | nothing
  | expression (loc : Location)
  | statement (loc : Location)
  | typeExpr (loc : Location)
  | item (loc : Location) (name : String)
deriving DecidableEq, Repr, Inhabited

namespace Foreign

def loc : Foreign → Location
  | .nothing => default
  | .expression loc | .statement loc | .typeExpr loc | .item loc _ => loc

/-- Whether two such nodes differ at most in their locations. -/
def same : Foreign → Foreign → Bool
  | .nothing, .nothing | .expression _, .expression _ | .statement _, .statement _
  | .typeExpr _, .typeExpr _ => true
  | .item _ name, .item _ name' => name = name'
  | _, _ => false

/-- The display form of a location inside a node. -/
def shownLocation (loc : Location) : String :=
  "location=SourceLocation(filename=" ++ Text.display loc.file ++ ", line=" ++ toString loc.line ++
    ", column=" ++ toString loc.column ++ ")"

/-- The form in which messages show such a node. -/
def display : Foreign → String
  | .nothing => "None"
  | .expression loc => "Expression(" ++ shownLocation loc ++ ", resolved_type=None)"
  | .statement loc => "Statement(" ++ shownLocation loc ++ ")"
  | .typeExpr loc => "TypeAnnotation(" ++ shownLocation loc ++ ", resolved=None)"
  | .item loc name => "Item(" ++ shownLocation loc ++ ", name=" ++ Text.display name ++ ")"

end Foreign

end Smpl
