import Mensura.UnitExpr.Basic

/-!
Products, quotients, powers and roots of units. Every power that is formed on the way has to fit 32 bits;
otherwise the result is an error that names the unit.
-/

namespace Mensura

def addPower (p q : Int32) : Option Int32 := int32? (p.toInt + q.toInt)

/-- One of the ways in which `Factor.merge` can combine the powers of a name that both sides have. To merge by it is
not to divide: a name that only the right side has keeps its power there. -/
def subtractPower (p q : Int32) : Option Int32 := int32? (p.toInt - q.toInt)

def multiplyPower (p q : Int32) : Option Int32 := int32? (p.toInt * q.toInt)

def negatePower (p : Int32) : Option Int32 := int32? (-p.toInt)

namespace Factor

/-- Puts a factor into a list in which no name repeats: the power of the same name is combined with it, a new
name goes to the end. -/
def absorb (combine : Int32 → Int32 → Option Int32) (new : Factor) :
    List Factor → Except UnitError (List Factor)
  | [] => .ok [new]
  | u :: rest =>
    if u.name = new.name then
      match combine u.power new.power with
      | some p => .ok (⟨u.name, p⟩ :: rest)
      | none => .error (.powerOverflow new.name)
    else (absorb combine new rest).map (u :: ·)

def absorbAll (combine : Int32 → Int32 → Option Int32) (into new : List Factor) :
    Except UnitError (List Factor) :=
  new.foldlM (fun us u => absorb combine u us) into

def withoutZeros (us : List Factor) : List Factor := us.filter fun u => u.power != 0

/-- The normal form: each name once, at the place where it first occurs, with the sum of its powers, and not
at all if that is zero. The powers are added in order, and every sum on the way has to fit. -/
def normalize (us : List Factor) : Except UnitError (List Factor) :=
  (absorbAll addPower [] us).map withoutZeros

/-- Normalises both sides and combines the powers of the names that they share. -/
def merge (combine : Int32 → Int32 → Option Int32) (left right : List Factor) :
    Except UnitError (List Factor) := do
  let l ← normalize left
  let r ← normalize right
  return withoutZeros (← absorbAll combine l r)

/-- Changes every power, from the first factor to the last. -/
def mapPowers (f : Int32 → Option Int32) (us : List Factor) : Except UnitError (List Factor) :=
  us.mapM fun u =>
    match f u.power with
    | some p => .ok ⟨u.name, p⟩
    | none => .error (.powerOverflow u.name)

end Factor

namespace UnitExpr

def multiply (u v : UnitExpr) : Except UnitError UnitExpr :=
  (Factor.merge addPower u.factors v.factors).map .mk

def divide (u v : UnitExpr) : Except UnitError UnitExpr := do
  let inverse ← Factor.mapPowers negatePower v.factors
  return ⟨← Factor.merge addPower u.factors inverse⟩

/-- Raises a unit to a whole power. -/
def scale (u : UnitExpr) (n : Int32) : Except UnitError UnitExpr := do
  let scaled ← Factor.mapPowers (multiplyPower · n) u.factors
  return ⟨← Factor.normalize scaled⟩

/-- The square root of a unit, which exists if the powers of its normal form are even. -/
def halve? (u : UnitExpr) : Option UnitExpr := do
  let us ← (Factor.normalize u.factors).toOption
  guard (us.all fun u => u.power.toInt % 2 = 0)
  return ⟨us.map fun u => ⟨u.name, Int32.ofInt (u.power.toInt / 2)⟩⟩

def isDimensionless (u : UnitExpr) : Except UnitError Bool :=
  (Factor.normalize u.factors).map List.isEmpty

/-- Whether two units have the same normal form but for the order of the factors. Names are compared as they
are written. -/
def sameFactors (u v : UnitExpr) : Except UnitError Bool := do
  let us ← Factor.normalize u.factors
  let vs ← Factor.normalize v.factors
  return us.isPerm vs

end UnitExpr

end Mensura
