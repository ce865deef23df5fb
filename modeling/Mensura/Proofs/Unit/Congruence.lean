import Mensura.Proofs.Unit.Equivalence

/-!
Equivalent units may stand for each other. Products, quotients and powers are formed by the names as they are
written, while units are compared by their expansions; both agree with the dimensions, and so with each other.
Main statement: among the units that can be expanded, to be equivalent is an equivalence relation, multiplying,
dividing and raising keep it, and a declared name may be replaced by its definition.
-/

namespace Mensura

variable {table : UnitTable} {u v : UnitExpr} {d : Dimension}

namespace UnitTable

theorem measure_append (us vs : List Factor) :
    table.measure (us ++ vs) = table.measure us + table.measure vs := by
  simp [measure]

/-- A declared name measures what its definition does. -/
theorem dimension_eq_measure {name : String} {definition : UnitExpr} (known : table.lookup name = some definition)
    (grounded : table.Grounded name) : table.dimension name = table.measure definition.factors := by
  obtain ⟨d, h⟩ := grounded
  rw [h.dimension_eq]
  cases h with
  | base free => rw [free] at known; cases known
  | @declared _ _ definition' e _ known' inner rest =>
    rw [known] at known'
    cases known'
    cases rest
    have single : (1 : Int32).toInt • e + 0 = e := by simp
    rw [single, inner.measure_eq]

end UnitTable

namespace UnitExpr

/-- The unit can be expanded. -/
def Expands (table : UnitTable) (u : UnitExpr) : Prop := ∃ x, u.expand table = .ok x

theorem Expands.hasDimension (h : u.Expands table) : HasDimension table u.factors (table.measure u.factors) := by
  obtain ⟨x, expanded⟩ := h
  have dimension := (expand_eq_ok expanded).1
  rwa [← dimension.measure_eq] at dimension

/-- Comparing two units that can be expanded does not fail, and it tells whether they measure the same. -/
theorem equivalent_of_expands (hu : u.Expands table) (hv : v.Expands table) :
    ∃ b, u.equivalent table v = .ok b ∧ (b = true ↔ table.measure u.factors = table.measure v.factors) := by
  obtain ⟨x, left⟩ := hu
  obtain ⟨y, right⟩ := hv
  have same : x.sameFactors y = .ok (x.factors.isPerm y.factors) :=
    sameFactors_of_normal (expand_eq_ok left).2.2 (expand_eq_ok right).2.2
  have compared : u.equivalent table v = .ok (x.factors.isPerm y.factors) := by
    rw [equivalent, left, right]
    exact same
  exact ⟨_, compared, equivalent_eq_ok (Expands.hasDimension ⟨x, left⟩) (Expands.hasDimension ⟨y, right⟩) compared⟩

theorem equivalent_of_measure_eq (hu : u.Expands table) (hv : v.Expands table)
    (same : table.measure u.factors = table.measure v.factors) : u.equivalent table v = .ok true := by
  obtain ⟨b, compared, iff⟩ := equivalent_of_expands hu hv
  rw [compared, iff.mpr same]

theorem equivalent_of_dimension (hu : u.Expands table) (hv : v.Expands table) (left : HasDimension table u.factors d)
    (right : HasDimension table v.factors d) : u.equivalent table v = .ok true :=
  equivalent_of_measure_eq hu hv (left.measure_eq.trans right.measure_eq.symm)

theorem expands_of_equivalent {b : Bool} (h : u.equivalent table v = .ok b) : u.Expands table ∧ v.Expands table := by
  obtain ⟨x, left, h⟩ := bind_eq_ok.mp h
  obtain ⟨y, right, -⟩ := bind_eq_ok.mp h
  exact ⟨⟨x, left⟩, ⟨y, right⟩⟩

/-- A factor with a declared name measures as much as the definition of the name with all its powers multiplied. -/
theorem measure_replaced {name : String} {k : Int32} {definition : UnitExpr} {before after terms : List Factor}
    (known : table.lookup name = some definition)
    (multiplied : Factor.mapPowers (multiplyPower · k) definition.factors = .ok terms)
    (grounded : table.Grounded name) :
    table.measure (before ++ ⟨name, k⟩ :: after) = table.measure (before ++ (terms ++ after)) := by
  have times : table.measure terms = k.toInt • table.measure definition.factors :=
    UnitTable.measure_smul (Factor.mapPowers_multiply_eq_ok multiplied).1
  have whole : table.measure (⟨name, k⟩ :: after) = k.toInt • table.dimension name + table.measure after := rfl
  rw [UnitTable.measure_append, UnitTable.measure_append, UnitTable.measure_append, whole, times,
    UnitTable.dimension_eq_measure known grounded]

/-- To be equivalent is a congruence, for every table. Among the units that can be expanded it is reflexive,
symmetric and transitive. Products, quotients and powers of equivalent units are equivalent whenever they exist and
can be expanded, and so are a unit in which a declared name is raised to some power and the same unit with the
factors of the definition, each raised to that power, in the place of the name. -/
theorem equivalent_congruence (table : UnitTable) :
    (∀ u : UnitExpr, u.Expands table → u.equivalent table u = .ok true) ∧
    (∀ u v : UnitExpr, u.Expands table → v.Expands table →
      ∃ b, u.equivalent table v = .ok b ∧ v.equivalent table u = .ok b) ∧
    (∀ u v w : UnitExpr, u.equivalent table v = .ok true → v.equivalent table w = .ok true →
      u.equivalent table w = .ok true) ∧
    (∀ u u' v v' : UnitExpr, u.equivalent table u' = .ok true → v.equivalent table v' = .ok true →
      (∀ p p', u.multiply v = .ok p → u'.multiply v' = .ok p' → p.Expands table → p'.Expands table →
        p.equivalent table p' = .ok true) ∧
      (∀ q q', u.divide v = .ok q → u'.divide v' = .ok q' → q.Expands table → q'.Expands table →
        q.equivalent table q' = .ok true) ∧
      (∀ n r r', u.scale n = .ok r → u'.scale n = .ok r' → r.Expands table → r'.Expands table →
        r.equivalent table r' = .ok true)) ∧
    (∀ before after terms name k definition, table.lookup name = some definition →
      Factor.mapPowers (multiplyPower · k) definition.factors = .ok terms →
      Expands table ⟨before ++ ⟨name, k⟩ :: after⟩ → Expands table ⟨before ++ (terms ++ after)⟩ →
      equivalent table ⟨before ++ ⟨name, k⟩ :: after⟩ ⟨before ++ (terms ++ after)⟩ = .ok true) := by
  refine ⟨?reflexive, ?symmetric, ?transitive, ?compatible, ?replaced⟩
  case reflexive =>
    intro u hu
    exact equivalent_of_measure_eq hu hu rfl
  case symmetric =>
    intro u v hu hv
    obtain ⟨b, compared, iff⟩ := equivalent_of_expands hu hv
    obtain ⟨c, swapped, iff'⟩ := equivalent_of_expands hv hu
    have same : b = c := Bool.eq_iff_iff.mpr (iff.trans (eq_comm.trans iff'.symm))
    exact ⟨b, compared, same ▸ swapped⟩
  case transitive =>
    intro u v w huv hvw
    obtain ⟨d, du, dv⟩ := dimension_of_equivalent huv
    obtain ⟨e, dv', dw⟩ := dimension_of_equivalent hvw
    rw [dv'.unique dv] at dw
    exact equivalent_of_dimension (expands_of_equivalent huv).1 (expands_of_equivalent hvw).2 du dw
  case compatible =>
    intro u u' v v' hu hv
    obtain ⟨d, du, du'⟩ := dimension_of_equivalent hu
    obtain ⟨e, dv, dv'⟩ := dimension_of_equivalent hv
    refine ⟨?_, ?_, ?_⟩
    · intro p p' hp hp' left right
      exact equivalent_of_dimension left right (du.multiply dv hp) (du'.multiply dv' hp')
    · intro q q' hq hq' left right
      exact equivalent_of_dimension left right (du.divide dv hq) (du'.divide dv' hq')
    · intro n r r' hr hr' left right
      exact equivalent_of_dimension left right (du.scale hr) (du'.scale hr')
  case replaced =>
    intro before after terms name k definition known multiplied left right
    have grounded : table.Grounded name := left.hasDimension.grounded name (by simp)
    exact equivalent_of_measure_eq left right (measure_replaced known multiplied grounded)

/-- Force times length is energy, whether the force is named or spelled out. -/
theorem equivalent_congruence_work :
    let table : UnitTable := [("J", ⟨[⟨"N", 1⟩, ⟨"m", 1⟩]⟩), ("N", ⟨[⟨"kg", 1⟩, ⟨"m", 1⟩, ⟨"s", -2⟩]⟩)]
    let force : UnitExpr := ⟨[⟨"kg", 1⟩, ⟨"m", 1⟩, ⟨"s", -2⟩]⟩
    (ofName "N").equivalent table force = .ok true ∧ (ofName "m").equivalent table (ofName "m") = .ok true ∧
      (∃ b, (ofName "N").equivalent table force = .ok b ∧ force.equivalent table (ofName "N") = .ok b) ∧
      equivalent table ⟨[⟨"N", 1⟩, ⟨"m", 1⟩]⟩ ⟨[⟨"kg", 1⟩, ⟨"m", 2⟩, ⟨"s", -2⟩]⟩ = .ok true ∧
      (ofName "J").equivalent table ⟨[⟨"kg", 1⟩, ⟨"m", 2⟩, ⟨"s", -2⟩]⟩ = .ok true ∧
      equivalent table ⟨[⟨"N", 1⟩, ⟨"m", -1⟩]⟩ ⟨[⟨"kg", 1⟩, ⟨"s", -2⟩]⟩ = .ok true ∧
      equivalent table ⟨[⟨"N", 2⟩]⟩ ⟨[⟨"kg", 2⟩, ⟨"m", 2⟩, ⟨"s", -4⟩]⟩ = .ok true ∧
      equivalent table ⟨[⟨"s", 1⟩, ⟨"J", -2⟩]⟩ ⟨[⟨"s", 1⟩, ⟨"N", -2⟩, ⟨"m", -2⟩]⟩ = .ok true := by
  intro table force
  have expands (u x : UnitExpr) (h : u.expand table = .ok x) : u.Expands table := ⟨x, h⟩
  obtain ⟨reflexive, symmetric, transitive, compatible, replaced⟩ := equivalent_congruence table
  have named : (ofName "N").equivalent table force = .ok true := by decide
  have length : (ofName "m").equivalent table (ofName "m") = .ok true := reflexive _ (expands _ (ofName "m") (by decide))
  obtain ⟨product, quotient, power⟩ := compatible _ _ _ _ named length
  have energy : equivalent table ⟨[⟨"N", 1⟩, ⟨"m", 1⟩]⟩ ⟨[⟨"kg", 1⟩, ⟨"m", 2⟩, ⟨"s", -2⟩]⟩ = .ok true :=
    product _ _ rfl rfl (expands _ _ rfl) (expands _ _ rfl)
  exact ⟨named, length, symmetric _ _ (expands _ force (by decide)) (expands _ force (by decide)), energy,
    transitive _ _ _ (by decide) energy, quotient _ _ rfl rfl (expands _ _ rfl) (expands _ _ rfl),
    power 2 _ _ rfl rfl (expands _ _ rfl) (expands _ _ rfl),
    replaced [⟨"s", 1⟩] [] [⟨"N", -2⟩, ⟨"m", -2⟩] "J" (-2) _ rfl rfl (expands _ _ rfl) (expands _ _ rfl)⟩

end UnitExpr

end Mensura
