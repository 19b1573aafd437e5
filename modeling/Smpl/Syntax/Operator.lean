import Smpl.Token.Basic

namespace Smpl

inductive BinaryOp
  | add
  | subtract
  | multiply
  | divide
  | modulo
  | equal
  | notEqual
  | less
  | greater
  | lessEqual
  | greaterEqual
  | and
  | or
deriving DecidableEq, Repr

namespace BinaryOp

def symbol : BinaryOp → Symbol
  | .add => .plus
  | .subtract => .minus
  | .multiply => .star
  | .divide => .slash
  | .modulo => .percent
  | .equal => .equal
  | .notEqual => .notEqual
  | .less => .less
  | .greater => .greater
  | .lessEqual => .lessEqual
  | .greaterEqual => .greaterEqual
  | .and => .and
  | .or => .or

def spelling (op : BinaryOp) : String :=
  op.symbol.spelling

/-- How tightly an operator binds. All operators of one strength group to the left. -/
def precedence : BinaryOp → Nat
  | .and | .or => 1
  | .equal | .notEqual => 2
  | .less | .greater | .lessEqual | .greaterEqual => 3
  | .add | .subtract => 4
  | .multiply | .divide | .modulo => 5

def isLogical (op : BinaryOp) : Bool :=
  op = .and || op = .or

def isEquality (op : BinaryOp) : Bool :=
  op = .equal || op = .notEqual

def isRelational (op : BinaryOp) : Bool :=
  op.precedence = 3

def ofSymbol? : Symbol → Option BinaryOp
  | .plus => some .add
  | .minus => some .subtract
  | .star => some .multiply
  | .slash => some .divide
  | .percent => some .modulo
  | .equal => some .equal
  | .notEqual => some .notEqual
  | .less => some .less
  | .greater => some .greater
  | .lessEqual => some .lessEqual
  | .greaterEqual => some .greaterEqual
  | .and => some .and
  | .or => some .or
  | _ => none

def all : List BinaryOp :=
  [.add, .subtract, .multiply, .divide, .modulo, .equal, .notEqual, .less, .greater, .lessEqual,
    .greaterEqual, .and, .or]

end BinaryOp

inductive UnaryOp
  | negate
  | not
  | reference
  | dereference
deriving DecidableEq, Repr

namespace UnaryOp

def symbol : UnaryOp → Symbol
  | .negate => .minus
  | .not => .not
  | .reference => .ampersand
  | .dereference => .star

def spelling (op : UnaryOp) : String :=
  op.symbol.spelling

/-- Binds tighter than every binary operator. -/
def precedence : Nat := 6

def ofSymbol? : Symbol → Option UnaryOp
  | .minus => some .negate
  | .not => some .not
  | .ampersand => some .reference
  | .star => some .dereference
  | _ => none

def all : List UnaryOp :=
  [.negate, .not, .reference, .dereference]

end UnaryOp

end Smpl
