import Mensura.Numeral.Notation
import Mensura.Numeral.Word

/-!
Units of measurement. A unit expression such as `kg*m*s^-2` is a product of powers of unit names. Names may
repeat and powers may be zero; the normal form has neither.
-/

namespace Mensura

/-- A unit name raised to a power. -/
structure Factor where
  name : String
  power : Int32
  deriving DecidableEq, Repr

/-- A product of factors, in the order in which they were written. -/
structure UnitExpr where
  factors : List Factor
  deriving DecidableEq, Repr

/-- Why a unit cannot be worked out. -/
inductive UnitError where
  | undeclared (name : String)
  | recursive (name : String)
  /-- A power of the named unit does not fit 32 bits. -/
  | powerOverflow (name : String)
  deriving DecidableEq, Repr

def Factor.display (u : Factor) : String :=
  if u.power = 1 then u.name else u.name ++ "^" ++ Numeral.integer u.power.toInt

namespace UnitExpr

def display (u : UnitExpr) : String :=
  "[" ++ "*".intercalate (u.factors.map Factor.display) ++ "]"

/-- The unit of plain numbers. -/
def dimensionless : UnitExpr := ⟨[]⟩

/-- A single name. -/
def ofName (name : String) : UnitExpr := ⟨[⟨name, 1⟩]⟩

end UnitExpr

end Mensura
