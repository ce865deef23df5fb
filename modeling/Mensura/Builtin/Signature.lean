import Mensura.Builtin.Basic
import Mensura.Program.Basic

/-!
Which arguments the built-in functions take, and the type of what they give back. Any value can be printed. A
root halves the powers of a unit in base units. A power multiplies the powers of a unit by the exponent, which
has to be written out unless the base is a plain number.
-/

namespace Mensura

/-- The integer that an expression writes out, under any number of minus signs. -/
def Expr.integer? : Expr → Option Int64
  | .literal (.int n _) _ => some n
  | .unary .minus _ operand =>
    match operand.integer? with
    | some n => int64? (-n.toInt)
    | none => none
  | _ => none

namespace Builtin

/-- Whether a unit measures plain numbers, if it can be expanded. -/
def isPlain? (table : UnitTable) (u : UnitExpr) : Option Bool := do
  let expanded ← (u.expand table).toOption
  expanded.isDimensionless.toOption

def rootType? (table : UnitTable) (u : UnitExpr) : Option Ty := do
  let expanded ← (u.expand table).toOption
  let half ← expanded.halve?
  return .quantity half

/-- The type of a power, from the units of base and exponent and the exponent as it is written. -/
def powerType? (table : UnitTable) (base exponent : UnitExpr) (written : Option Expr) : Option Ty := do
  guard (← isPlain? table exponent)
  if ← isPlain? table base then return .quantity .dimensionless
  let n ← (← written).integer?
  let factor ← int32? n.toInt
  return .quantity (← (base.scale factor).toOption)

/-- The type that a built-in function gives back for arguments of the given types, or nothing where the call
is not permitted. -/
def resultType? (table : UnitTable) (types : List Ty) (args : List Expr) : Builtin → Option Ty
  | print =>
    match types with
    | [.void] => none
    | [_] => some .void
    | _ => none
  | sqrt =>
    match types with
    | [.quantity u] => rootType? table u
    | _ => none
  | power =>
    match types with
    | [.quantity base, .quantity exponent] => powerType? table base exponent args[1]?
    | _ => none

end Builtin

end Mensura
