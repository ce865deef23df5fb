import Mathlib.Algebra.BigOperators.Pi
import Mathlib.Data.Fintype.List
import Mathlib.Data.Fintype.Pi
import Mathlib.Tactic.Abel
import Mathlib.Tactic.Module
import Mensura.Proofs.Unit.Totals
import Mensura.UnitExpr.Expansion

/-!
The dimension that a product of factors has under a table: a vector of powers of base units over the integers.
A declared name has the dimension of its definition. A name has no dimension if its definition leads back to
itself or to a name without a meaning, and it has at most one. Dimensions are linear in the powers: they depend
on the sums of the powers only, so multiplying, dividing and raising units does the same to their dimensions.
-/

namespace Mensura

/-- The name of a base unit. -/
abbrev BaseUnit := {name : String // name ∈ baseUnits}

/-- A power for every base unit. -/
abbrev Dimension := BaseUnit → Int

/-- The powers of the base units in a product, where all other names count for nothing. -/
def Dimension.ofFactors (us : List Factor) : Dimension := fun b => Factor.total us b.1

/-- The dimension of a product of factors. A declared name counts with its definition, and any other name has
to be that of a base unit. -/
inductive HasDimension (table : UnitTable) : List Factor → Dimension → Prop where
  | nil : HasDimension table [] 0
  | base {u : Factor} {us : List Factor} {d : Dimension} (free : table.lookup u.name = none)
      (base : u.name ∈ baseUnits) (rest : HasDimension table us d) :
      HasDimension table (u :: us) (u.power.toInt • Pi.single ⟨u.name, base⟩ 1 + d)
  | declared {u : Factor} {us : List Factor} {definition : UnitExpr} {e d : Dimension}
      (known : table.lookup u.name = some definition)
      (inner : HasDimension table definition.factors e) (rest : HasDimension table us d) :
      HasDimension table (u :: us) (u.power.toInt • e + d)

namespace UnitTable

/-- The name stands for a dimension. -/
def Grounded (table : UnitTable) (name : String) : Prop := ∃ d, HasDimension table [⟨name, 1⟩] d

open Classical in
/-- The dimension that a name stands for, if it does for one. -/
noncomputable def dimension (table : UnitTable) (name : String) : Dimension :=
  if h : table.Grounded name then h.choose else 0

/-- The dimensions of the names, added up with their powers. -/
noncomputable def measure (table : UnitTable) (us : List Factor) : Dimension :=
  (us.map fun u => u.power.toInt • table.dimension u.name).sum

end UnitTable

namespace HasDimension

variable {table : UnitTable} {us vs : List Factor} {d e : Dimension}

theorem unique (hd : HasDimension table us d) (he : HasDimension table us e) : d = e := by
  induction hd generalizing e with
  | nil => cases he; rfl
  | base free _ _ ih =>
    cases he with
    | base _ _ rest => rw [ih rest]
    | declared known => rw [free] at known; cases known
  | declared known _ _ ihInner ihRest =>
    cases he with
    | base free => rw [free] at known; cases known
    | declared known' inner rest =>
      rw [known] at known'
      cases known'
      rw [ihInner inner, ihRest rest]

/-- A single factor contributes its name's dimension as often as its power says. -/
theorem cons_iff {u : Factor} :
    HasDimension table (u :: us) d ↔
      ∃ e f, HasDimension table [⟨u.name, 1⟩] e ∧ HasDimension table us f ∧ d = u.power.toInt • e + f := by
  constructor
  · intro h
    cases h with
    | base free base rest =>
      have single := HasDimension.base (u := ⟨u.name, 1⟩) free base .nil
      exact ⟨_, _, by simpa using single, rest, rfl⟩
    | declared known inner rest =>
      have single := HasDimension.declared (u := ⟨u.name, 1⟩) known inner .nil
      exact ⟨_, _, by simpa using single, rest, rfl⟩
  · rintro ⟨e, f, single, rest, rfl⟩
    cases single with
    | base free base none =>
      cases none
      have whole := HasDimension.base (u := u) free base rest
      simpa using whole
    | declared known inner none =>
      cases none
      have whole := HasDimension.declared (u := u) known inner rest
      simpa using whole

theorem dimension_eq {name : String} (h : HasDimension table [⟨name, 1⟩] d) : table.dimension name = d := by
  have grounded : table.Grounded name := ⟨d, h⟩
  rw [UnitTable.dimension, dif_pos grounded]
  exact grounded.choose_spec.unique h

/-- A product has a dimension exactly if all its names do, and then it is the sum of theirs. -/
theorem iff_measure :
    HasDimension table us d ↔ (∀ name ∈ us.map Factor.name, table.Grounded name) ∧ d = table.measure us := by
  induction us generalizing d with
  | nil =>
    constructor
    · intro h
      cases h
      exact ⟨nofun, rfl⟩
    · rintro ⟨-, rfl⟩
      exact .nil
  | cons u us ih =>
    rw [cons_iff, List.map_cons, List.forall_mem_cons]
    constructor
    · rintro ⟨e, f, single, rest, rfl⟩
      obtain ⟨grounded, rfl⟩ := ih.mp rest
      exact ⟨⟨⟨e, single⟩, grounded⟩, by rw [← single.dimension_eq]; rfl⟩
    · rintro ⟨⟨⟨e, single⟩, grounded⟩, rfl⟩
      exact ⟨e, _, single, ih.mpr ⟨grounded, rfl⟩, by rw [← single.dimension_eq]; rfl⟩

end HasDimension

namespace UnitTable

variable {table : UnitTable} {us vs ws : List Factor}

/-- The dimension of a product is settled by the sums of the powers of its names. -/
theorem measure_eq_sum {names : Finset String} (h : ∀ u ∈ us, u.name ∈ names) :
    table.measure us = ∑ name ∈ names, Factor.total us name • table.dimension name := by
  induction us with
  | nil => simp [measure]
  | cons u us ih =>
    have rest := ih fun v hv => h v (List.mem_cons_of_mem u hv)
    have first : ∑ name ∈ names, (if u.name = name then u.power.toInt else 0) • table.dimension name =
        u.power.toInt • table.dimension u.name := by
      rw [Finset.sum_eq_single_of_mem u.name (h u List.mem_cons_self)]
      · rw [if_pos rfl]
      · intro name _ other
        rw [if_neg (Ne.symm other), zero_smul]
    simp only [Factor.total_cons, add_smul, Finset.sum_add_distrib, first, ← rest]
    rfl

/-- The names of some products, as a set. -/
private theorem exists_names (us vs ws : List Factor) :
    ∃ names : Finset String, (∀ u ∈ us, u.name ∈ names) ∧ (∀ v ∈ vs, v.name ∈ names) ∧
      ∀ w ∈ ws, w.name ∈ names :=
  ⟨((us ++ vs ++ ws).map Factor.name).toFinset, by simp +contextual; grind⟩

theorem measure_add (h : Factor.total ws = Factor.total us + Factor.total vs) :
    table.measure ws = table.measure us + table.measure vs := by
  obtain ⟨names, hu, hv, hw⟩ := exists_names us vs ws
  rw [measure_eq_sum hu, measure_eq_sum hv, measure_eq_sum hw, h]
  simp only [Pi.add_apply, add_smul, Finset.sum_add_distrib]

theorem measure_sub (h : Factor.total ws = Factor.total us - Factor.total vs) :
    table.measure ws = table.measure us - table.measure vs := by
  have : Factor.total us = Factor.total ws + Factor.total vs := by rw [h, sub_add_cancel]
  rw [measure_add this, add_sub_cancel_right]

theorem measure_smul {k : Int} (h : ∀ name, Factor.total ws name = k * Factor.total us name) :
    table.measure ws = k • table.measure us := by
  obtain ⟨names, hu, hw, -⟩ := exists_names us ws []
  rw [measure_eq_sum hu, measure_eq_sum hw, Finset.smul_sum]
  simp only [h, mul_smul]

end UnitTable

end Mensura
