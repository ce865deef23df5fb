import Mensura.Proofs.Unit.Totals

/-!
The laws of multiplying and dividing units, as they are written. A product exists exactly if both sides have a
normal form and all the sums of their powers fit, so the order of the two sides does not matter. Main statement:
up to the order of the factors, products are commutative and associative, a quotient takes back what multiplying
by the same unit does, and multiplying takes back a quotient without ever running out of range.
-/

namespace Mensura

theorem isSome_int32?_toInt (p : Int32) : (int32? p.toInt).isSome := by
  rw [int32?_eq_some_iff.mpr rfl]
  rfl

namespace Factor

variable {us vs ws : List Factor} {new : Factor}

/-! ### When a product exists -/

/-- In a list with distinct names no sum of powers is out of range. -/
theorem isSome_int32?_total (distinct : (us.map Factor.name).Nodup) (name : String) :
    (int32? (total us name)).isSome := by
  by_cases mem : name ∈ us.map Factor.name
  · obtain ⟨u, hu, rfl⟩ := List.mem_map.mp mem
    rw [total_of_mem distinct hu]
    exact isSome_int32?_toInt u.power
  · rw [total_eq_zero_of_notMem mem]
    rfl

theorem exists_absorb_iff (distinct : (us.map Factor.name).Nodup) :
    (∃ ws, absorb addPower new us = .ok ws) ↔ (int32? (total us new.name + new.power.toInt)).isSome := by
  induction us with
  | nil =>
    have fits := isSome_int32?_toInt new.power
    simpa [absorb] using fits
  | cons u us ih =>
    rw [List.map_cons, List.nodup_cons] at distinct
    by_cases same : u.name = new.name
    · have rest : total us new.name = 0 := total_eq_zero_of_notMem (same ▸ distinct.1)
      rw [absorb, if_pos same, total_cons, if_pos same, rest, Int.add_zero, addPower]
      cases int32? (u.power.toInt + new.power.toInt) <;> simp
    · rw [absorb, if_neg same, total_cons, if_neg same, Int.zero_add, ← ih distinct.2]
      constructor
      · rintro ⟨ws, h⟩
        obtain ⟨vs, joined, -⟩ := map_eq_ok.mp h
        exact ⟨vs, joined⟩
      · rintro ⟨vs, joined⟩
        exact ⟨u :: vs, map_eq_ok.mpr ⟨vs, joined, rfl⟩⟩

/-- Factors can be joined to others with distinct names exactly if every sum on the way fits. -/
theorem exists_absorbAll_iff (distinct : (us.map Factor.name).Nodup) :
    (∃ ws, absorbAll addPower us vs = .ok ws) ↔
      ∀ before v after, vs = before ++ v :: after →
        (int32? (total us v.name + total (before ++ [v]) v.name)).isSome := by
  induction vs generalizing us with
  | nil => simp [absorbAll, pure, Except.pure]
  | cons v vs ih =>
    rw [absorbAll_cons]
    constructor
    · rintro ⟨ws, h⟩ before w after split
      obtain ⟨us', joined, h⟩ := bind_eq_ok.mp h
      have sum := total_absorb joined
      cases before with
      | nil =>
        cases split
        have fits := (exists_absorb_iff distinct).mp ⟨us', joined⟩
        simpa using fits
      | cons x before =>
        cases split
        have fits := (ih (distinct_absorb joined distinct)).mp ⟨ws, h⟩ before w after rfl
        rw [sum] at fits
        simpa [Int.add_assoc] using fits
    · intro fits
      have first : (int32? (total us v.name + v.power.toInt)).isSome := by simpa using fits [] v vs rfl
      obtain ⟨us', joined⟩ := (exists_absorb_iff distinct).mpr first
      have sum := total_absorb joined
      have later : ∃ ws, absorbAll addPower us' vs = .ok ws := by
        apply (ih (distinct_absorb joined distinct)).mpr
        intro before w after split
        have here := fits (v :: before) w after (by rw [split]; rfl)
        rw [sum]
        simpa [Int.add_assoc] using here
      obtain ⟨ws, joinedAll⟩ := later
      exact ⟨ws, bind_eq_ok.mpr ⟨us', joined, joinedAll⟩⟩

theorem exists_merge_iff :
    (∃ ws, merge addPower us vs = .ok ws) ↔
      (∃ l, normalize us = .ok l) ∧ (∃ r, normalize vs = .ok r) ∧
        ∀ name, (int32? (total us name + total vs name)).isSome := by
  constructor
  · rintro ⟨ws, h⟩
    obtain ⟨sum, normal, -⟩ := merge_eq_ok h
    obtain ⟨l, left, h⟩ := bind_eq_ok.mp h
    obtain ⟨r, right, -⟩ := bind_eq_ok.mp h
    have fits (name : String) : (int32? (total us name + total vs name)).isSome := by
      have := isSome_int32?_total normal.distinct name
      rwa [sum] at this
    exact ⟨⟨l, left⟩, ⟨r, right⟩, fits⟩
  · rintro ⟨⟨l, left⟩, ⟨r, right⟩, fits⟩
    have distinct := (normal_normalize right).distinct
    have joined : ∃ all, absorbAll addPower l r = .ok all := by
      apply (exists_absorbAll_iff (normal_normalize left).distinct).mpr
      intro before v after split
      -- the names of a normal form are distinct, so what stands in front of `v` adds nothing to it
      have whole : total (before ++ [v]) v.name = total r v.name := by
        rw [split, List.map_append, List.map_cons, List.nodup_append] at distinct
        have behind : total after v.name = 0 :=
          total_eq_zero_of_notMem (List.nodup_cons.mp distinct.2.1).1
        rw [split, total_append, total_append, total_cons, total_cons, behind, total_nil]
        rfl
      have here := fits v.name
      rwa [← total_normalize left, ← total_normalize right, ← whole] at here
    obtain ⟨all, joined⟩ := joined
    exact ⟨withoutZeros all, bind_eq_ok.mpr ⟨l, left, bind_eq_ok.mpr ⟨r, right, bind_eq_ok.mpr ⟨all, joined, rfl⟩⟩⟩⟩

end Factor

namespace UnitExpr
open Factor (total Normal normalize)

variable {u v w : UnitExpr}

theorem exists_multiply_iff :
    (∃ w, u.multiply v = .ok w) ↔
      (∃ l, normalize u.factors = .ok l) ∧ (∃ r, normalize v.factors = .ok r) ∧
        ∀ name, (int32? (total u.factors name + total v.factors name)).isSome := by
  rw [← Factor.exists_merge_iff]
  constructor
  · rintro ⟨w, h⟩
    obtain ⟨ws, merged, -⟩ := map_eq_ok.mp h
    exact ⟨ws, merged⟩
  · rintro ⟨ws, merged⟩
    exact ⟨⟨ws⟩, map_eq_ok.mpr ⟨ws, merged, rfl⟩⟩

theorem exists_multiply_comm : (∃ w, u.multiply v = .ok w) ↔ ∃ w, v.multiply u = .ok w := by
  simp only [exists_multiply_iff, Int.add_comm (total u.factors _)]
  exact and_left_comm

/-- What is divided has a normal form. -/
theorem normalize_of_divide (h : u.divide v = .ok w) : ∃ l, normalize u.factors = .ok l := by
  obtain ⟨inverse, -, h⟩ := bind_eq_ok.mp h
  obtain ⟨ws, merged, -⟩ := bind_eq_ok.mp h
  exact (Factor.exists_merge_iff.mp ⟨ws, merged⟩).1

/-- A normal form has the same factors as everything with its sums of powers. -/
theorem sameFactors_of_total {l : List Factor} (normal : Normal w.factors) (form : normalize u.factors = .ok l)
    (same : total w.factors = total u.factors) : w.sameFactors u = .ok true := by
  have compared : w.sameFactors u = .ok (w.factors.isPerm l) := by
    rw [sameFactors, Factor.normalize_of_normal normal, form]
    rfl
  rw [compared, (sameFactors_eq_ok compared).mpr same]

/-- The laws of the algebra of units, up to the order of the factors. Whether a product exists does not depend on
the order of its sides, and neither does what it is; nor does it matter how a product of three is grouped.
Multiplying a quotient by what it was divided by is always possible and gives back the dividend, dividing a product
by one side gives back the other, and nothing is left of a unit that is divided by itself. -/
theorem group_laws (u v w : UnitExpr) :
    ((∃ p, u.multiply v = .ok p) ↔ ∃ p, v.multiply u = .ok p) ∧
    (∀ p q, u.multiply v = .ok p → v.multiply u = .ok q → p.sameFactors q = .ok true) ∧
    (∀ uv vw p q, u.multiply v = .ok uv → v.multiply w = .ok vw → uv.multiply w = .ok p → u.multiply vw = .ok q →
      p.sameFactors q = .ok true) ∧
    (∀ q r, u.divide v = .ok q → normalize v.factors = .ok r →
      ∃ p, q.multiply v = .ok p ∧ p.sameFactors u = .ok true) ∧
    (∀ p q, u.multiply v = .ok p → p.divide v = .ok q → q.sameFactors u = .ok true) ∧
    (∀ q, u.divide u = .ok q → q.factors = []) := by
  have agree {p q : UnitExpr} (hp : Normal p.factors) (hq : Normal q.factors)
      (same : total p.factors = total q.factors) : p.sameFactors q = .ok true :=
    sameFactors_of_total hp (Factor.normalize_of_normal hq) same
  refine ⟨exists_multiply_comm, ?comm, ?assoc, ?restore, ?cancel, ?vanish⟩
  case comm =>
    intro p q hp hq
    obtain ⟨sumP, normalP, -⟩ := multiply_eq_ok hp
    obtain ⟨sumQ, normalQ, -⟩ := multiply_eq_ok hq
    exact agree normalP normalQ (by rw [sumP, sumQ, add_comm])
  case assoc =>
    intro uv vw p q huv hvw hp hq
    obtain ⟨sumUV, -, -⟩ := multiply_eq_ok huv
    obtain ⟨sumVW, -, -⟩ := multiply_eq_ok hvw
    obtain ⟨sumP, normalP, -⟩ := multiply_eq_ok hp
    obtain ⟨sumQ, normalQ, -⟩ := multiply_eq_ok hq
    exact agree normalP normalQ (by rw [sumP, sumQ, sumUV, sumVW, add_assoc])
  case restore =>
    intro q r hq hr
    obtain ⟨difference, normalQ, -⟩ := divide_eq_ok hq
    obtain ⟨l, hl⟩ := normalize_of_divide hq
    have back : total q.factors + total v.factors = total u.factors := by rw [difference, sub_add_cancel]
    have fits (name : String) : (int32? (total q.factors name + total v.factors name)).isSome := by
      have whole := Factor.isSome_int32?_total (Factor.normal_normalize hl).distinct name
      rwa [Factor.total_normalize hl, ← back] at whole
    obtain ⟨p, hp⟩ := exists_multiply_iff.mpr ⟨⟨_, Factor.normalize_of_normal normalQ⟩, ⟨r, hr⟩, fits⟩
    obtain ⟨sum, normalP, -⟩ := multiply_eq_ok hp
    exact ⟨p, hp, sameFactors_of_total normalP hl (sum.trans back)⟩
  case cancel =>
    intro p q hp hq
    obtain ⟨⟨l, hl⟩, -⟩ := exists_multiply_iff.mp ⟨p, hp⟩
    obtain ⟨sum, -, -⟩ := multiply_eq_ok hp
    obtain ⟨difference, normalQ, -⟩ := divide_eq_ok hq
    exact sameFactors_of_total normalQ hl (by rw [difference, sum, add_sub_cancel_right])
  case vanish =>
    intro q hq
    obtain ⟨difference, normalQ, -⟩ := divide_eq_ok hq
    exact normalQ.eq_nil_iff.mpr (by rw [difference, sub_self])

/-- A name that occurs twice, a power of zero, and names that cancel each other. -/
theorem group_laws_area :
    let area : UnitExpr := ⟨[⟨"m", 5⟩, ⟨"s", 0⟩, ⟨"m", -3⟩]⟩
    let rate : UnitExpr := ⟨[⟨"kg", 1⟩, ⟨"s", -1⟩]⟩
    let density : UnitExpr := ⟨[⟨"kg", -1⟩, ⟨"m", -2⟩]⟩
    area.multiply rate = .ok ⟨[⟨"m", 2⟩, ⟨"kg", 1⟩, ⟨"s", -1⟩]⟩ ∧ (∃ p, rate.multiply area = .ok p) ∧
      (⟨[⟨"m", 2⟩, ⟨"kg", 1⟩, ⟨"s", -1⟩]⟩ : UnitExpr).sameFactors ⟨[⟨"kg", 1⟩, ⟨"s", -1⟩, ⟨"m", 2⟩]⟩ = .ok true ∧
      rate.multiply density = .ok ⟨[⟨"s", -1⟩, ⟨"m", -2⟩]⟩ ∧
      (⟨[⟨"s", -1⟩]⟩ : UnitExpr).sameFactors ⟨[⟨"s", -1⟩]⟩ = .ok true ∧
      (∃ p, (⟨[⟨"m", 2⟩, ⟨"kg", -1⟩, ⟨"s", 1⟩]⟩ : UnitExpr).multiply rate = .ok p ∧ p.sameFactors area = .ok true) ∧
      (⟨[⟨"m", 2⟩]⟩ : UnitExpr).sameFactors area = .ok true ∧ area.divide area = .ok dimensionless ∧
      dimensionless.factors = [] := by
  intro area rate density
  obtain ⟨swap, comm, assoc, restore, cancel, vanish⟩ := group_laws area rate density
  have multiplied : area.multiply rate = .ok ⟨[⟨"m", 2⟩, ⟨"kg", 1⟩, ⟨"s", -1⟩]⟩ := rfl
  have second : rate.multiply density = .ok ⟨[⟨"s", -1⟩, ⟨"m", -2⟩]⟩ := rfl
  have nothing : area.divide area = .ok dimensionless := rfl
  exact ⟨multiplied, swap.mp ⟨_, multiplied⟩, comm _ _ multiplied rfl, second,
    assoc _ _ _ _ multiplied second rfl rfl, restore _ _ rfl rfl, cancel _ _ multiplied rfl, nothing, vanish _ nothing⟩

end UnitExpr

end Mensura
