import Smpl.Double.Text
import Smpl.Text.Display

namespace Smpl

/-- A plain value that a caller may name a backend by. The backends of the compiler have numbers. -/
inductive Scalar
  | absent
  | truth (value : Bool)
  | number (value : Int)
  | real (value : Double)
  | text (value : String)
deriving DecidableEq, Repr, Inhabited

/-- Two kinds of value that have no common order. -/
structure Incomparable where
  left : String
  right : String
deriving DecidableEq, Repr

namespace Scalar

/-- What messages call the kind of a value. -/
def kind : Scalar → String
  | .absent => "NoneType"
  | .truth _ => "bool"
  | .number _ => "int"
  | .real _ => "float"
  | .text _ => "str"

/-- The form in which a message quotes a value. -/
def display : Scalar → String
  | .absent => "None"
  | .truth value => if value then "True" else "False"
  | .number value => toString value
  | .real value => value.display
  | .text value => Text.display value

/-- The form in which a message lists a value. Texts stand as they are. -/
def shown : Scalar → String
  | .text value => value
  | value => value.display

/-- A value that counts as a number, as a numerator and a denominator. -/
def fraction? : Scalar → Option (Int × Nat)
  | .truth value => some (if value then 1 else 0, 1)
  | .number value => some (value, 1)
  | .real value =>
    if value.isFinite then
      let (numerator, denominator) := value.ratio
      some (if value.isNegative then -(numerator : Int) else numerator, denominator)
    else none
  | .absent | .text _ => none

/-- Whether two values name the same backend. -/
def same (a b : Scalar) : Bool :=
  match a.fraction?, b.fraction? with
  | some (m, d), some (n, e) => m * e = n * d
  | _, _ => a = b

/-- Whether a value comes before another. Numbers have an order, and so have texts. -/
def before (a b : Scalar) : Except Incomparable Bool :=
  match a, b with
  | .text s, .text t => .ok (s < t)
  | a, b =>
    match a.fraction?, b.fraction? with
    | some (m, d), some (n, e) => .ok (m * e < n * d)
    | _, _ => .error ⟨a.kind, b.kind⟩

end Scalar

end Smpl
