import Smpl.Diagnostic.Basic
import Smpl.Types.Basic

namespace Smpl

/-- A parameter or a binding of a function body, with its type and the place of its declaration. -/
structure Local where
  name : String
  type : Ty
  loc : Location
  isParameter : Bool
deriving DecidableEq, Repr, Inhabited

/-- The declarations of one block, the latest first. -/
abbrev Frame := List Local

/-- The open blocks around a place in a function: the innermost one, then those around it. The
    outermost holds the parameters. -/
structure Scope where
  current : Frame
  outer : List Frame
deriving DecidableEq, Repr, Inhabited

namespace Scope

def empty : Scope :=
  ⟨[], []⟩

def frames (scope : Scope) : List Frame :=
  scope.current :: scope.outer

/-- Opens a block inside. -/
def push (scope : Scope) : Scope :=
  ⟨[], scope.frames⟩

/-- Closes the innermost block. The outermost one stays open. -/
def pop? (scope : Scope) : Option Scope :=
  match scope.outer with
  | [] => none
  | frame :: outer => some ⟨frame, outer⟩

/-- Whether only the block of the parameters is open. -/
def isFunction (scope : Scope) : Bool :=
  scope.outer.isEmpty

def findIn (name : String) (frame : Frame) : Option Local :=
  frame.find? fun symbol => symbol.name = name

/-- The declaration of a name in the innermost block that has one. -/
def lookup (scope : Scope) (name : String) : Option Local :=
  scope.frames.findSome? (findIn name)

/-- Adds a declaration to the innermost block, which must not have one of that name. -/
def declare (scope : Scope) (symbol : Local) : Except Failure Scope :=
  match findIn symbol.name scope.current with
  | some first => refuse (.duplicateDeclaration symbol.name (some first.loc) none) symbol.loc
  | none => .ok { scope with current := symbol :: scope.current }

/-- All names that can be looked up, each once, in order. -/
def visibleNames (scope : Scope) : List String :=
  sortedNames (scope.frames.flatten.map (·.name)).eraseDups

end Scope

end Smpl
