import Mensura.Numeral.Word
import Mensura.Value

/-!
The functions that every program has: printing a value, the square root and the power. Powers of integers are
exact: where the result does not fit 64 bits there is none.
-/

namespace Mensura

inductive Builtin where
  | print | sqrt | power
  deriving DecidableEq, Repr

/-- Why a built-in function cannot answer for its arguments. -/
inductive BuiltinFault where
  | notNumber (found : Value.Kind)
  | notNumbers (base exponent : Value.Kind)
  | overflow
  deriving DecidableEq, Repr

def BuiltinFault.message : BuiltinFault → String
  | notNumber found => "Invalid call: expected number, got " ++ found.name ++ "."
  | notNumbers base exponent =>
    "Invalid call: expected numbers, got " ++ base.name ++ " and " ++ exponent.name ++ "."
  | overflow => "integer overflow."

namespace Builtin

def name : Builtin → String
  | print => "print"
  | sqrt => "sqrt"
  | power => "power"

def all : List Builtin := [print, sqrt, power]

def ofName? (name : String) : Option Builtin := all.find? (·.name == name)

/-- The number of arguments. -/
def arity : Builtin → Nat
  | print => 1
  | sqrt => 1
  | power => 2

/-- The square root of a number, as a floating-point number. -/
def squareRoot (x : Value) : Except BuiltinFault Value :=
  match x.number? with
  | some r => .ok (.float r.sqrt)
  | none => .error (.notNumber x.kind)

/-- An exponent for which -1, 0 and 1 have the same power as for `n`: but for zero only its parity counts. -/
def alike (n : Nat) : Nat := if n = 0 then 0 else 2 - n % 2

/-- A power of an integer if it fits 64 bits. From 2 on, and from -2 downwards, no power from the 64th on
does. -/
def exactPower? (base : Int64) (n : Nat) : Option Int64 :=
  if base.toInt.natAbs ≤ 1 then int64? (base.toInt.pow (alike n))
  else if n < 64 then int64? (base.toInt.pow n)
  else none

/-- Exponents of integers end below this bound. -/
def exponentBound : Nat := 4294967296

/-- A power in floating point. -/
def raiseNumber (base exponent : Value) : Except BuiltinFault Value :=
  match base.number?, exponent.number? with
  | some x, some y => .ok (.float (x.pow y))
  | _, _ => .error (.notNumbers base.kind exponent.kind)

/-- A power of an integer with an exponent that is not negative. -/
def raiseInteger (base : Int64) (n : Nat) : Except BuiltinFault Value :=
  if n < exponentBound then
    match exactPower? base n with
    | some m => .ok (.int m)
    | none => .error .overflow
  else .error .overflow

/-- A power: exact for an integer and an exponent that is not negative, else in floating point. -/
def raise (base exponent : Value) : Except BuiltinFault Value :=
  match base, exponent with
  | .int b, .int e =>
    if 0 ≤ e.toInt then raiseInteger b e.toInt.toNat else raiseNumber base exponent
  | _, _ => raiseNumber base exponent

end Builtin

end Mensura
