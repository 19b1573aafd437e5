import Smpl.Diagnostic.Basic
import Smpl.Syntax.Operator
import Smpl.Text.Integer

namespace Smpl

/-- The integer that a text writes in a tree made by hand. -/
def integerOf (text : String) : Except Failure Int :=
  let digits := text.toList.countP fun c => (Text.digit? c).isSome
  if maxDigits < digits then .error (.defect (.digitLimit digits))
  else
    match Text.integer? digits text with
    | some value => .ok value
    | none => .error (.defect (.notInteger text))

def UnaryOp.ofSpelling? (spelling : String) : Option UnaryOp :=
  all.find? fun op => op.spelling = spelling

/-- The prefix operator of that spelling. -/
def UnaryOp.ofSpelling (spelling : String) : Except Failure UnaryOp :=
  match UnaryOp.ofSpelling? spelling with
  | some op => .ok op
  | none => .error (.defect (.notOperator spelling "UnaryOperator"))

def BinaryOp.ofSpelling? (spelling : String) : Option BinaryOp :=
  all.find? fun op => op.spelling = spelling

/-- The binary operator of that spelling. -/
def BinaryOp.ofSpelling (spelling : String) : Except Failure BinaryOp :=
  match BinaryOp.ofSpelling? spelling with
  | some op => .ok op
  | none => .error (.defect (.notOperator spelling "BinaryOperator"))

end Smpl
