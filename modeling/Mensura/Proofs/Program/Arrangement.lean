import Mensura.Proofs.Printing.Program
import Mensura.UnitExpr.Expansion

/-!
The order in which functions and units are kept. They are looked up by their names, and no name is there twice, so
the order does not show. Main statement: programs that are alike cannot be told from one program without places.
-/

namespace Mensura

/-- To look for a name in another order finds the same, if there is no name twice. -/
theorem find?_perm {α : Type} (key : α → String) {as bs : List α} (perm : as.Perm bs) (nodup : (as.map key).Nodup)
    (name : String) : as.find? (key · == name) = bs.find? (key · == name) := by
  induction perm with
  | nil => rfl
  | cons a _ ih =>
    rw [List.find?_cons, List.find?_cons, ih nodup.of_cons]
  | swap a b as =>
    have apart : key b ≠ key a := fun same => (List.nodup_cons.mp nodup).1 (same ▸ List.mem_cons_self)
    by_cases first : key b = name
    · have second : key a ≠ name := fun same => apart (first.trans same.symm)
      simp [first, beq_eq_false_iff_ne.mpr second]
    · simp [List.find?_cons, beq_eq_false_iff_ne.mpr first]
  | trans first _ ih ih' => exact (ih nodup).trans (ih' ((first.map key).nodup nodup))

section
variable {table table' : UnitTable}

theorem UnitTable.replaceFactor_congr (same : ∀ name, table'.lookup name = table.lookup name) :
    table'.replaceFactor = table.replaceFactor := by
  funext enter power u
  simp only [replaceFactor, same]

theorem UnitTable.baseFactors_congr (same : ∀ name, table'.lookup name = table.lookup name) (depth : Nat)
    (path : List String) (power : Int32) (us : List Factor) :
    table'.baseFactors depth path power us = table.baseFactors depth path power us := by
  induction depth generalizing path power us with
  | zero => rw [baseFactors, baseFactors, replaceFactor_congr same]
  | succ depth ih => simp only [baseFactors, replaceFactor_congr same, ih]

/-- A unit is worked out by what its names stand for and by how many names there are. -/
theorem UnitExpr.expand_congr (same : ∀ name, table'.lookup name = table.lookup name)
    (length : table'.length = table.length) (u : UnitExpr) : u.expand table' = u.expand table := by
  simp only [expand, length, UnitTable.baseFactors_congr same]

end

namespace Program

variable {p q r : Program}

theorem lookup_unitTable (p : Program) (name : String) :
    p.unitTable.lookup name = (p.units.find? (·.name.name == name)).map (·.unit) := by
  unfold unitTable
  induction p.units with
  | nil => rfl
  | cons d ds ih =>
    rw [List.map_cons, List.lookup_cons, List.find?_cons, ih]
    by_cases here : d.name.name = name
    · simp [here]
    · simp [beq_eq_false_iff_ne.mpr here, beq_eq_false_iff_ne.mpr (Ne.symm here)]

theorem function?_of_perm (perm : q.functions.Perm p.functions) (distinct : p.Distinct) (name : String) :
    q.function? name = p.function? name :=
  (find?_perm (fun f : Function => f.name.name) perm.symm distinct.functions name).symm

theorem expand_of_perm (perm : q.units.Perm p.units) (distinct : p.Distinct) (u : UnitExpr) :
    u.expand q.unitTable = u.expand p.unitTable := by
  have looked (name : String) : q.unitTable.lookup name = p.unitTable.lookup name := by
    rw [lookup_unitTable, lookup_unitTable]
    exact congrArg _ (find?_perm (·.name.name) perm.symm distinct.units name).symm
  exact u.expand_congr looked (by simpa [unitTable] using perm.length_eq)

/-- By what it finds under the names, and by its statements, the program `r` is `p` without places. -/
structure Forgets (p r : Program) : Prop where
  functions : ∀ name, r.function? name = (p.function? name).map Function.placeless
  units : ∀ u : UnitExpr, u.expand r.unitTable = u.expand p.unitTable
  statements : r.statements = Stmt.allPlaceless p.statements

theorem function?_placeless (p : Program) (name : String) :
    p.placeless.function? name = (p.function? name).map Function.placeless :=
  List.find?_map ..

theorem unitTable_placeless (p : Program) : p.placeless.unitTable = p.unitTable := List.map_map

theorem Forgets.placeless (p : Program) : p.Forgets p.placeless where
  functions := p.function?_placeless
  units u := by rw [unitTable_placeless]
  statements := rfl

theorem Distinct.placeless (distinct : p.Distinct) : p.placeless.Distinct where
  functions := by
    rw [Program.placeless, List.map_map]
    exact distinct.functions
  units := by
    rw [Program.placeless, List.map_map]
    exact distinct.units

theorem Alike.forgets (alike : q.Alike p) (distinct : p.Distinct) : q.Forgets p.placeless where
  functions name := by
    rw [← function?_placeless]
    exact (function?_of_perm alike.functions distinct.placeless name).symm
  units u := by
    rw [← unitTable_placeless q]
    exact (expand_of_perm alike.units distinct.placeless u).symm
  statements := alike.statements.symm

end Program

end Mensura
