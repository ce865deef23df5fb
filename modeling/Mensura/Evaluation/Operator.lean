import Mensura.Evaluation.Error

/-!
What the operators compute. Two integers give an integer, which is exact or an error; an integer meets a
floating-point number as the floating-point number next to it. Integers are equal if they are the same, and
are ordered as floating-point numbers.
-/

namespace Mensura

namespace UnaryOp

def apply (op : UnaryOp) (position : Position) (operand : Value) : Except RunError Value :=
  match op, operand with
  | minus, .int n =>
    match int64? (-n.toInt) with
    | some m => .ok (.int m)
    | none => .error (.integerOverflow position)
  | minus, .float x => .ok (.float (-x))
  | not, .bool b => .ok (.bool !b)
  | _, _ => .error (.unchecked (.unaryOperand op operand.kind))

end UnaryOp

/-- The four operations on numbers. -/
inductive Arithmetic where
  | add | subtract | multiply | divide
  deriving DecidableEq, Repr

namespace Arithmetic

/-- On integers. A quotient is rounded towards zero, and there is none by zero. -/
def onIntegers : Arithmetic → Int → Int → Option Int
  | add, m, n => some (m + n)
  | subtract, m, n => some (m - n)
  | multiply, m, n => some (m * n)
  | divide, m, n => if n = 0 then none else some (m.tdiv n)

def onNumbers : Arithmetic → Float → Float → Float
  | add, x, y => x + y
  | subtract, x, y => x - y
  | multiply, x, y => x * y
  | divide, x, y => x / y

end Arithmetic

/-- The ways to order two numbers. -/
inductive Comparison where
  | greater | greaterEqual | less | lessEqual
  deriving DecidableEq, Repr

def Comparison.holds : Comparison → Float → Float → Bool
  | greater, x, y => x > y
  | greaterEqual, x, y => x ≥ y
  | less, x, y => x < y
  | lessEqual, x, y => x ≤ y

namespace BinaryOp

def refuse {α : Type} (op : BinaryOp) (position : Position) (left right : Value) : Except RunError α :=
  .error (.unchecked (.binaryOperands op position left.kind right.kind))

/-- Both operands as floating-point numbers. -/
def numbers (op : BinaryOp) (position : Position) (left right : Value) : Except RunError (Float × Float) :=
  match left.number?, right.number? with
  | some x, some y => .ok (x, y)
  | _, _ => op.refuse position left right

def compute (op : BinaryOp) (position : Position) (operation : Arithmetic) (left right : Value) :
    Except RunError Value :=
  match left, right with
  | .int m, .int n =>
    match operation.onIntegers m.toInt n.toInt with
    | none => .error (.divisionByZero position)
    | some k =>
      match int64? k with
      | some w => .ok (.int w)
      | none => .error (.integerOverflow position)
  | _, _ => (op.numbers position left right).map fun (x, y) => .float (operation.onNumbers x y)

def equalValues (op : BinaryOp) (position : Position) (left right : Value) : Except RunError Bool :=
  match left, right with
  | .int m, .int n => .ok (m == n)
  | .bool a, .bool b => .ok (a == b)
  | .text s, .text t => .ok (s == t)
  | _, _ => (op.numbers position left right).map fun (x, y) => x == y

def compare (op : BinaryOp) (position : Position) (comparison : Comparison) (left right : Value) :
    Except RunError Value :=
  (op.numbers position left right).map fun (x, y) => .bool (comparison.holds x y)

/-- A connective of truth values, both of which are always worked out. -/
def connect (op : BinaryOp) (position : Position) (connective : Bool → Bool → Bool)
    (left right : Value) : Except RunError Value :=
  match left, right with
  | .bool a, .bool b => .ok (.bool (connective a b))
  | _, _ => op.refuse position left right

/-- Texts are put together, numbers are added. -/
def join (op : BinaryOp) (position : Position) (left right : Value) : Except RunError Value :=
  match left, right with
  | .text s, .text t => .ok (.text (s ++ t))
  | _, _ => op.compute position .add left right

def apply (op : BinaryOp) (position : Position) (left right : Value) : Except RunError Value :=
  match op with
  | plus => op.join position left right
  | minus => op.compute position .subtract left right
  | star => op.compute position .multiply left right
  | slash => op.compute position .divide left right
  | equal => (op.equalValues position left right).map .bool
  | notEqual => (op.equalValues position left right).map fun e => .bool !e
  | greater => op.compare position .greater left right
  | greaterEqual => op.compare position .greaterEqual left right
  | less => op.compare position .less left right
  | lessEqual => op.compare position .lessEqual left right
  | and => op.connect position Bool.and left right
  | or => op.connect position Bool.or left right

end BinaryOp

end Mensura
