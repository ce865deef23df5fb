import Mensura.Proofs.Unit.Expansion

/-!
Units that measure the same thing. Two units are equivalent exactly if they have the same dimension, and
comparing two that have one can fail for a power out of range only. The dimension of a product, a quotient or a
power is the sum, the difference or the multiple of the dimensions, however the units are written.
-/

namespace Mensura

variable {table : UnitTable} {u v w : UnitExpr} {d e : Dimension}

namespace HasDimension

/-- A product of grounded names that measures `d` has this dimension. -/
theorem of_names {us : List Factor} (grounded : ∀ name ∈ us.map Factor.name, table.Grounded name)
    (measures : table.measure us = d) : HasDimension table us d :=
  iff_measure.mpr ⟨grounded, measures.symm⟩

theorem grounded {us : List Factor} (h : HasDimension table us d) :
    ∀ name ∈ us.map Factor.name, table.Grounded name :=
  (iff_measure.mp h).1

/-- Names that come from one of two products are grounded if both of these have a dimension. -/
theorem grounded_either {us vs ws : List Factor} (hu : HasDimension table us d) (hv : HasDimension table vs e)
    (among : ∀ name ∈ ws.map Factor.name, name ∈ us.map Factor.name ∨ name ∈ vs.map Factor.name) :
    ∀ name ∈ ws.map Factor.name, table.Grounded name := by
  intro name mem
  obtain mem | mem := among name mem
  · exact hu.grounded name mem
  · exact hv.grounded name mem

theorem measure_eq {us : List Factor} (h : HasDimension table us d) : table.measure us = d :=
  (iff_measure.mp h).2.symm

/-- All that can go wrong with a unit that has a dimension is a power out of range. -/
theorem explains {us : List Factor} {error : UnitError} (h : HasDimension table us d)
    (explains : table.Explains us error) : ∃ name, error = .powerOverflow name := by
  cases error with
  | recursive name => exact absurd explains.2 (h.sound explains.1).1
  | undeclared name => exact absurd explains.2 (h.sound explains.1).2
  | powerOverflow name => exact ⟨name, rfl⟩

theorem expand_error {error : UnitError} (h : HasDimension table u.factors d)
    (fails : u.expand table = .error error) : ∃ name, error = .powerOverflow name :=
  h.explains (UnitExpr.expand_eq_error fails)

theorem multiply (hu : HasDimension table u.factors d) (hv : HasDimension table v.factors e)
    (h : u.multiply v = .ok w) : HasDimension table w.factors (d + e) := by
  obtain ⟨total, -, names⟩ := UnitExpr.multiply_eq_ok h
  apply of_names (hu.grounded_either hv names)
  rw [UnitTable.measure_add total, hu.measure_eq, hv.measure_eq]

theorem divide (hu : HasDimension table u.factors d) (hv : HasDimension table v.factors e)
    (h : u.divide v = .ok w) : HasDimension table w.factors (d - e) := by
  obtain ⟨total, -, names⟩ := UnitExpr.divide_eq_ok h
  apply of_names (hu.grounded_either hv names)
  rw [UnitTable.measure_sub total, hu.measure_eq, hv.measure_eq]

theorem scale {n : Int32} (hu : HasDimension table u.factors d) (h : u.scale n = .ok w) :
    HasDimension table w.factors (n.toInt • d) := by
  obtain ⟨total, -, names⟩ := UnitExpr.scale_eq_ok h
  apply of_names
  · intro name mem
    exact hu.grounded name (names name mem)
  · rw [UnitTable.measure_smul total, hu.measure_eq]

theorem dimensionless : HasDimension table UnitExpr.dimensionless.factors 0 := .nil

end HasDimension

namespace Dimension

/-- Base units that a table leaves alone have equal powers if they have equal powers as base units. -/
theorem total_eq_of_settled {us vs : List Factor} (hu : table.Settled us) (hv : table.Settled vs)
    (same : Dimension.ofFactors us = Dimension.ofFactors vs) : Factor.total us = Factor.total vs := by
  funext name
  by_cases base : name ∈ baseUnits
  · exact congrFun same ⟨name, base⟩
  · have absent {ws : List Factor} (hw : table.Settled ws) : Factor.total ws name = 0 := by
      apply Factor.total_eq_zero_of_notMem
      intro mem
      obtain ⟨f, hf, rfl⟩ := List.mem_map.mp mem
      exact base (hw f hf).2
    rw [absent hu, absent hv]

end Dimension

namespace UnitExpr

theorem equivalent_eq_ok {b : Bool} (hu : HasDimension table u.factors d) (hv : HasDimension table v.factors e)
    (h : u.equivalent table v = .ok b) : b = true ↔ d = e := by
  obtain ⟨x, left, h⟩ := bind_eq_ok.mp h
  obtain ⟨y, right, h⟩ := bind_eq_ok.mp h
  obtain ⟨dx, settledX, -⟩ := expand_eq_ok left
  obtain ⟨dy, settledY, -⟩ := expand_eq_ok right
  rw [sameFactors_eq_ok h, hu.unique dx, hv.unique dy]
  constructor
  · intro same
    funext b
    exact congrFun same b.1
  · exact Dimension.total_eq_of_settled settledX settledY

theorem equivalent_eq_error {error : UnitError} (hu : HasDimension table u.factors d)
    (hv : HasDimension table v.factors e) (h : u.equivalent table v = .error error) :
    ∃ name, error = .powerOverflow name := by
  obtain h | ⟨x, left, h⟩ := bind_eq_error.mp h
  · exact hu.expand_error h
  obtain h | ⟨y, right, h⟩ := bind_eq_error.mp h
  · exact hv.expand_error h
  · rw [sameFactors_of_normal (expand_eq_ok left).2.2 (expand_eq_ok right).2.2] at h
    cases h

/-- Equivalent units have a dimension, and they have the same. -/
theorem dimension_of_equivalent (h : u.equivalent table v = .ok true) :
    ∃ d, HasDimension table u.factors d ∧ HasDimension table v.factors d := by
  have compared := h
  obtain ⟨x, left, h⟩ := bind_eq_ok.mp h
  obtain ⟨y, right, -⟩ := bind_eq_ok.mp h
  obtain ⟨dx, -⟩ := expand_eq_ok left
  obtain ⟨dy, -⟩ := expand_eq_ok right
  have same := (equivalent_eq_ok dx dy compared).mp rfl
  exact ⟨_, dx, same ▸ dy⟩

end UnitExpr

end Mensura
