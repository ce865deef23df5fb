import Mensura.UnitExpr.Algebra

/-!
Declared units. A table gives names their definitions, and expanding a unit replaces declared names by their
definitions until only base units are left. Two units measure the same thing if their expansions agree. A
declaration may give a new meaning even to the name of a base unit.
-/

namespace Mensura

/-- The names of the seven base units. -/
def baseUnits : List String := ["s", "m", "kg", "A", "K", "mol", "cd"]

/-- Declared names and their definitions. -/
abbrev UnitTable := List (String × UnitExpr)

namespace UnitTable

/-- The base units that take the place of a factor which is itself raised to `power`. A declared name is
entered, with the power that it then has and its definition. -/
def replaceFactor (table : UnitTable)
    (enter : (name : String) → (power : Int32) → (definition : UnitExpr) → Except UnitError (List Factor))
    (power : Int32) (u : Factor) : Except UnitError (List Factor) :=
  match multiplyPower u.power power with
  | none => .error (.powerOverflow u.name)
  | some p =>
    match table.lookup u.name with
    | some definition => enter u.name p definition
    | none => if u.name ∈ baseUnits then .ok [⟨u.name, p⟩] else .error (.undeclared u.name)

/-- The base units in a product of factors raised to `power`, in order. `path` holds the names that are being
replaced, each of them declared, and `depth` more of the table's names can still join it: once that is zero
every declared name is on the path. -/
def baseFactors (table : UnitTable) :
    (depth : Nat) → (path : List String) → (power : Int32) → List Factor → Except UnitError (List Factor)
  | 0, _, power, us =>
    (us.mapM (table.replaceFactor (fun name _ _ => .error (.recursive name)) power)).map List.flatten
  | depth + 1, path, power, us =>
    (us.mapM (table.replaceFactor (fun name p definition =>
      if name ∈ path then .error (.recursive name)
      else baseFactors table depth (name :: path) p definition.factors) power)).map List.flatten

end UnitTable

namespace UnitExpr

/-- The unit in base units only. -/
def expand (table : UnitTable) (u : UnitExpr) : Except UnitError UnitExpr := do
  let us ← table.baseFactors table.length [] 1 u.factors
  return ⟨← Factor.normalize us⟩

/-- Whether two units measure the same thing. -/
def equivalent (table : UnitTable) (u v : UnitExpr) : Except UnitError Bool := do
  let x ← u.expand table
  let y ← v.expand table
  x.sameFactors y

end UnitExpr

end Mensura
