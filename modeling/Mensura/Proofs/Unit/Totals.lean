import Mathlib.Algebra.BigOperators.Group.List.Basic
import Mathlib.Algebra.Group.Pi.Basic
import Mathlib.Algebra.Ring.Int.Defs
import Mathlib.Data.List.Nodup
import Mensura.Proofs.Result
import Mensura.UnitExpr.Algebra

/-!
What a product of factors amounts to: for every name the sum of the powers that stand at it, over the integers.
Normalising, multiplying, dividing and raising change this sum exactly as they should, or are an error; and a
normal form is settled by it but for the order of its factors.
-/

namespace Mensura.Factor

/-- The powers of a name, added up over the integers. -/
def total (us : List Factor) (name : String) : Int :=
  (us.map fun u => if u.name = name then u.power.toInt else 0).sum

/-- Each name once, and no power zero. -/
structure Normal (us : List Factor) : Prop where
  distinct : (us.map Factor.name).Nodup
  nonzero : ∀ u ∈ us, u.power ≠ 0

section
variable {new : Factor} {us vs ws : List Factor}

@[simp] theorem total_nil : total [] = 0 := rfl

@[simp] theorem total_cons (u : Factor) (us : List Factor) (name : String) :
    total (u :: us) name = (if u.name = name then u.power.toInt else 0) + total us name := rfl

@[simp] theorem total_append (us vs : List Factor) (name : String) :
    total (us ++ vs) name = total us name + total vs name := by
  simp [total]

theorem total_eq_zero_of_notMem {name : String} (h : name ∉ us.map Factor.name) : total us name = 0 := by
  induction us with
  | nil => rfl
  | cons u us ih =>
    rw [List.map_cons, List.mem_cons, not_or] at h
    rw [total_cons, if_neg (Ne.symm h.1), ih h.2, Int.add_zero]

/-- What joining a factor to others with distinct names does: its power goes to the factor with its name, or
it takes the last place. -/
theorem absorb_eq_ok (h : absorb addPower new us = .ok vs) :
    (∃ before u after p, us = before ++ u :: after ∧ u.name = new.name ∧
      new.name ∉ before.map Factor.name ∧ p.toInt = u.power.toInt + new.power.toInt ∧
      vs = before ++ ⟨u.name, p⟩ :: after) ∨
    (new.name ∉ us.map Factor.name ∧ vs = us ++ [new]) := by
  induction us generalizing vs with
  | nil => cases h; exact .inr ⟨List.not_mem_nil, rfl⟩
  | cons u us ih =>
    rw [absorb] at h
    split at h
    · rename_i same
      split at h
      · rename_i p hp
        cases h
        exact .inl ⟨[], u, us, p, rfl, same, List.not_mem_nil, int32?_eq_some_iff.mp hp, rfl⟩
      · cases h
    · rename_i other
      obtain ⟨rest, hrest, rfl⟩ := map_eq_ok.mp h
      obtain ⟨before, v, after, p, rfl, hv, hb, hp, rfl⟩ | ⟨hn, rfl⟩ := ih hrest
      · refine .inl ⟨u :: before, v, after, p, rfl, hv, ?_, hp, rfl⟩
        simpa [Ne.symm other] using hb
      · exact .inr ⟨by simpa [Ne.symm other] using hn, rfl⟩

theorem absorb_eq_error {combine : Int32 → Int32 → Option Int32} {e : UnitError}
    (h : absorb combine new us = .error e) : e = .powerOverflow new.name := by
  induction us with
  | nil => cases h
  | cons u us ih =>
    rw [absorb] at h
    split at h
    · split at h <;> cases h
      rfl
    · exact ih (map_eq_error.mp h)

theorem total_absorb (h : absorb addPower new us = .ok vs) : total vs = total us + total [new] := by
  funext name
  obtain ⟨before, u, after, p, rfl, hu, -, hp, rfl⟩ | ⟨-, rfl⟩ := absorb_eq_ok h
  · simp only [Pi.add_apply, total_append, total_cons, total_nil, hu, Pi.zero_apply]
    split <;> omega
  · simp

theorem distinct_absorb (h : absorb addPower new us = .ok vs) (distinct : (us.map Factor.name).Nodup) :
    (vs.map Factor.name).Nodup := by
  obtain ⟨before, u, after, p, rfl, -, -, -, rfl⟩ | ⟨hn, rfl⟩ := absorb_eq_ok h
  · simpa using distinct
  · rw [List.map_append, List.nodup_append]
    refine ⟨distinct, by simp, ?_⟩
    intro a ha b hb same
    obtain rfl : b = new.name := by simpa using hb
    exact hn (same ▸ ha)

theorem names_absorb (h : absorb addPower new us = .ok vs) {name : String} (hv : name ∈ vs.map Factor.name) :
    name ∈ us.map Factor.name ∨ name = new.name := by
  obtain ⟨before, u, after, p, rfl, -, -, -, rfl⟩ | ⟨hn, rfl⟩ := absorb_eq_ok h
  · exact .inl (by simpa using hv)
  · simpa using hv

theorem absorbAll_cons (combine : Int32 → Int32 → Option Int32) (us : List Factor) (v : Factor)
    (vs : List Factor) :
    absorbAll combine us (v :: vs) = absorb combine v us >>= (absorbAll combine · vs) := List.foldlM_cons

theorem total_absorbAll (h : absorbAll addPower us vs = .ok ws) : total ws = total us + total vs := by
  induction vs generalizing us with
  | nil => cases h; simp
  | cons v vs ih =>
    rw [absorbAll_cons] at h
    obtain ⟨us', first, h⟩ := bind_eq_ok.mp h
    rw [ih h, total_absorb first]
    funext name
    simp only [Pi.add_apply, total_cons, total_nil, Pi.zero_apply]
    omega

theorem distinct_absorbAll (h : absorbAll addPower us vs = .ok ws) (distinct : (us.map Factor.name).Nodup) :
    (ws.map Factor.name).Nodup := by
  induction vs generalizing us with
  | nil => cases h; exact distinct
  | cons v vs ih =>
    rw [absorbAll_cons] at h
    obtain ⟨us', first, h⟩ := bind_eq_ok.mp h
    exact ih h (distinct_absorb first distinct)

theorem names_absorbAll (h : absorbAll addPower us vs = .ok ws) {name : String}
    (hw : name ∈ ws.map Factor.name) : name ∈ us.map Factor.name ∨ name ∈ vs.map Factor.name := by
  induction vs generalizing us with
  | nil => cases h; exact .inl hw
  | cons v vs ih =>
    rw [absorbAll_cons] at h
    obtain ⟨us', first, h⟩ := bind_eq_ok.mp h
    obtain hu | hv := ih h
    · exact (names_absorb first hu).imp_right fun same => by simp [same]
    · exact .inr (List.mem_cons_of_mem _ hv)

theorem absorbAll_eq_error {combine : Int32 → Int32 → Option Int32} {e : UnitError}
    (h : absorbAll combine us vs = .error e) : ∃ v ∈ vs, e = .powerOverflow v.name := by
  induction vs generalizing us with
  | nil => cases h
  | cons v vs ih =>
    rw [absorbAll_cons] at h
    obtain h | ⟨us', -, h⟩ := bind_eq_error.mp h
    · exact ⟨v, List.mem_cons_self, absorb_eq_error h⟩
    · obtain ⟨w, hw, h⟩ := ih h
      exact ⟨w, List.mem_cons_of_mem v hw, h⟩

/-! ### Normal forms -/

theorem total_withoutZeros (us : List Factor) : total (withoutZeros us) = total us := by
  funext name
  induction us with
  | nil => rfl
  | cons u us ih =>
    by_cases zero : u.power = 0
    · rw [withoutZeros, List.filter_cons_of_neg (by simpa using zero)]
      simpa [zero, withoutZeros] using ih
    · rw [withoutZeros, List.filter_cons_of_pos (by simpa using zero), total_cons, total_cons]
      exact congrArg _ ih

theorem normal_withoutZeros (distinct : (us.map Factor.name).Nodup) : Normal (withoutZeros us) where
  distinct := distinct.sublist (List.filter_sublist.map _)
  nonzero u hu := by simpa using (List.mem_filter.mp hu).2

theorem withoutZeros_of_normal (h : Normal us) : withoutZeros us = us :=
  List.filter_eq_self.mpr fun u hu => by simpa using h.nonzero u hu

theorem total_normalize (h : normalize us = .ok vs) : total vs = total us := by
  obtain ⟨ws, all, rfl⟩ := map_eq_ok.mp h
  rw [total_withoutZeros, total_absorbAll all]
  simp

theorem normal_normalize (h : normalize us = .ok vs) : Normal vs := by
  obtain ⟨ws, all, rfl⟩ := map_eq_ok.mp h
  exact normal_withoutZeros (distinct_absorbAll all List.nodup_nil)

theorem names_normalize (h : normalize us = .ok vs) {name : String} (hv : name ∈ vs.map Factor.name) :
    name ∈ us.map Factor.name := by
  obtain ⟨ws, all, rfl⟩ := map_eq_ok.mp h
  obtain ⟨v, mem, rfl⟩ := List.mem_map.mp hv
  obtain hn | hu := names_absorbAll all (List.mem_map_of_mem (List.mem_filter.mp mem).1)
  · cases hn
  · exact hu

theorem normalize_eq_error {e : UnitError} (h : normalize us = .error e) :
    ∃ u ∈ us, e = .powerOverflow u.name :=
  absorbAll_eq_error (map_eq_error.mp h)

theorem absorb_of_notMem {combine : Int32 → Int32 → Option Int32} (h : new.name ∉ us.map Factor.name) :
    absorb combine new us = .ok (us ++ [new]) := by
  induction us with
  | nil => rfl
  | cons u us ih =>
    rw [List.map_cons, List.mem_cons, not_or] at h
    rw [absorb, if_neg (Ne.symm h.1), ih h.2]
    rfl

theorem absorbAll_of_distinct {combine : Int32 → Int32 → Option Int32}
    (h : ((us ++ vs).map Factor.name).Nodup) : absorbAll combine us vs = .ok (us ++ vs) := by
  induction vs generalizing us with
  | nil => rw [List.append_nil]; rfl
  | cons v vs ih =>
    have fresh : v.name ∉ us.map Factor.name := fun hv => by
      rw [List.map_append, List.nodup_append] at h
      exact h.2.2 v.name hv v.name (by simp) rfl
    rw [absorbAll_cons, absorb_of_notMem fresh]
    exact (ih (by simpa using h)).trans (by simp)

/-- A normal form is its own normal form. -/
theorem normalize_of_normal (h : Normal us) : normalize us = .ok us := by
  rw [normalize, absorbAll_of_distinct (by simpa using h.distinct)]
  exact congrArg Except.ok (withoutZeros_of_normal h)

/-- In a list with distinct names every factor has the whole power of its name. -/
theorem total_of_mem (distinct : (us.map Factor.name).Nodup) {u : Factor} (hu : u ∈ us) :
    total us u.name = u.power.toInt := by
  induction us with
  | nil => cases hu
  | cons v us ih =>
    rw [List.map_cons, List.nodup_cons] at distinct
    obtain rfl | hu := List.mem_cons.mp hu
    · simp [total_eq_zero_of_notMem distinct.1]
    · have other : v.name ≠ u.name := fun same => distinct.1 (same ▸ List.mem_map_of_mem hu)
      rw [total_cons, if_neg other, ih distinct.2 hu, Int.zero_add]

/-- A name with a power that is not zero belongs to a factor. -/
theorem mem_names_of_total_ne_zero (us : List Factor) (name : String) (h : total us name ≠ 0) :
    name ∈ us.map Factor.name := by
  by_cases mem : name ∈ us.map Factor.name
  · exact mem
  · exact absurd (total_eq_zero_of_notMem mem) h

theorem mem_of_total_eq (hu : Normal us) (hv : Normal vs) (same : total us = total vs) {u : Factor}
    (mem : u ∈ us) : u ∈ vs := by
  have power := total_of_mem hu.distinct mem
  have nonzero : u.power.toInt ≠ 0 := fun zero => hu.nonzero u mem (Int32.toInt_inj.mp zero)
  rw [same] at power
  obtain ⟨v, hv', name⟩ := List.mem_map.mp (mem_names_of_total_ne_zero vs u.name (power ▸ nonzero))
  have other := total_of_mem hv.distinct hv'
  rw [name, power] at other
  obtain ⟨un, up⟩ := u
  obtain ⟨vn, vp⟩ := v
  obtain rfl := Int32.toInt_inj.mp other
  obtain rfl : vn = un := name
  exact hv'

/-- Two normal forms with the same powers differ in the order of their factors only. -/
theorem Normal.perm (hu : Normal us) (hv : Normal vs) (same : total us = total vs) : us.Perm vs := by
  have distinct : us.Nodup := List.Nodup.of_map _ hu.distinct
  have distinct' : vs.Nodup := List.Nodup.of_map _ hv.distinct
  rw [List.perm_ext_iff_of_nodup distinct distinct']
  intro u
  constructor
  · exact mem_of_total_eq hu hv same
  · exact mem_of_total_eq hv hu same.symm

theorem total_perm (h : us.Perm vs) : total us = total vs := by
  funext name
  exact (h.map _).sum_eq

/-- Only the empty normal form has no power. -/
theorem Normal.eq_nil_iff (h : Normal us) : us = [] ↔ total us = 0 := by
  constructor
  · rintro rfl
    rfl
  · intro zero
    rw [List.eq_nil_iff_forall_not_mem]
    intro u hu
    have power := total_of_mem h.distinct hu
    rw [zero] at power
    exact h.nonzero u hu (Int32.toInt_inj.mp power.symm)

/-! ### Merging and changing powers -/

theorem merge_eq_ok (h : merge addPower us vs = .ok ws) :
    total ws = total us + total vs ∧ Normal ws ∧
      ∀ name ∈ ws.map Factor.name, name ∈ us.map Factor.name ∨ name ∈ vs.map Factor.name := by
  obtain ⟨l, left, h⟩ := bind_eq_ok.mp h
  obtain ⟨r, right, h⟩ := bind_eq_ok.mp h
  obtain ⟨all, absorbed, h⟩ := bind_eq_ok.mp h
  cases h
  refine ⟨?_, normal_withoutZeros (distinct_absorbAll absorbed (normal_normalize left).distinct), ?_⟩
  · rw [total_withoutZeros, total_absorbAll absorbed, total_normalize left, total_normalize right]
  · intro name mem
    obtain ⟨w, hw, rfl⟩ := List.mem_map.mp mem
    exact (names_absorbAll absorbed (List.mem_map_of_mem (List.mem_filter.mp hw).1)).imp
      (names_normalize left) (names_normalize right)

theorem merge_eq_error {e : UnitError} (h : merge addPower us vs = .error e) :
    ∃ name, e = .powerOverflow name := by
  obtain h | ⟨l, -, h⟩ := bind_eq_error.mp h
  · obtain ⟨u, -, rfl⟩ := normalize_eq_error h
    exact ⟨u.name, rfl⟩
  obtain h | ⟨r, -, h⟩ := bind_eq_error.mp h
  · obtain ⟨v, -, rfl⟩ := normalize_eq_error h
    exact ⟨v.name, rfl⟩
  obtain h | ⟨all, -, h⟩ := bind_eq_error.mp h
  · obtain ⟨v, -, rfl⟩ := absorbAll_eq_error h
    exact ⟨v.name, rfl⟩
  · cases h

/-- Changing every power by a factor changes the sums by it. -/
theorem mapPowers_eq_ok {f : Int32 → Option Int32} {k : Int} (scales : ∀ p q, f p = some q → q.toInt = k * p.toInt)
    (h : mapPowers f us = .ok vs) :
    (∀ name, total vs name = k * total us name) ∧ vs.map Factor.name = us.map Factor.name := by
  have each := mapM_eq_ok h
  clear h
  induction each with
  | nil => exact ⟨fun _ => (Int.mul_zero k).symm, rfl⟩
  | @cons u v us vs first _ ih =>
    split at first <;> cases first
    rename_i p hp
    obtain ⟨times, names⟩ := ih
    constructor
    · intro name
      rw [total_cons, total_cons, times name, Int.mul_add, scales _ _ hp]
      simp only [mul_ite, Int.mul_zero]
    · exact congrArg (u.name :: ·) names

theorem mapPowers_multiply_eq_ok {n : Int32} (h : mapPowers (multiplyPower · n) us = .ok vs) :
    (∀ name, total vs name = n.toInt * total us name) ∧ vs.map Factor.name = us.map Factor.name := by
  apply mapPowers_eq_ok _ h
  intro p q product
  rw [int32?_eq_some_iff.mp product, Int.mul_comm]

theorem mapPowers_eq_error {f : Int32 → Option Int32} {e : UnitError} (h : mapPowers f us = .error e) :
    ∃ name, e = .powerOverflow name := by
  obtain ⟨u, -, h⟩ := mapM_eq_error h
  split at h <;> cases h
  exact ⟨u.name, rfl⟩

end

end Mensura.Factor

namespace Mensura.UnitExpr
open Factor (total Normal)

variable {u v w : UnitExpr}

theorem multiply_eq_ok (h : u.multiply v = .ok w) :
    total w.factors = total u.factors + total v.factors ∧ Normal w.factors ∧
      ∀ name ∈ w.factors.map Factor.name,
        name ∈ u.factors.map Factor.name ∨ name ∈ v.factors.map Factor.name := by
  obtain ⟨ws, merged, rfl⟩ := map_eq_ok.mp h
  exact Factor.merge_eq_ok merged

theorem multiply_eq_error {e : UnitError} (h : u.multiply v = .error e) : ∃ name, e = .powerOverflow name :=
  Factor.merge_eq_error (map_eq_error.mp h)

theorem negatePower_eq_some (p q : Int32) (h : negatePower p = some q) : q.toInt = -1 * p.toInt := by
  rw [int32?_eq_some_iff.mp h]
  omega

theorem divide_eq_ok (h : u.divide v = .ok w) :
    total w.factors = total u.factors - total v.factors ∧ Normal w.factors ∧
      ∀ name ∈ w.factors.map Factor.name,
        name ∈ u.factors.map Factor.name ∨ name ∈ v.factors.map Factor.name := by
  obtain ⟨inverse, negated, h⟩ := bind_eq_ok.mp h
  obtain ⟨ws, merged, h⟩ := bind_eq_ok.mp h
  cases h
  obtain ⟨opposite, names⟩ := Factor.mapPowers_eq_ok negatePower_eq_some negated
  obtain ⟨sum, normal, among⟩ := Factor.merge_eq_ok merged
  refine ⟨?_, normal, by rwa [names] at among⟩
  funext name
  rw [sum, Pi.add_apply, Pi.sub_apply, opposite]
  omega

theorem divide_eq_error {e : UnitError} (h : u.divide v = .error e) : ∃ name, e = .powerOverflow name := by
  obtain h | ⟨inverse, -, h⟩ := bind_eq_error.mp h
  · exact Factor.mapPowers_eq_error h
  obtain h | ⟨ws, -, h⟩ := bind_eq_error.mp h
  · exact Factor.merge_eq_error h
  · cases h

theorem scale_eq_ok {n : Int32} (h : u.scale n = .ok w) :
    (∀ name, total w.factors name = n.toInt * total u.factors name) ∧ Normal w.factors ∧
      ∀ name ∈ w.factors.map Factor.name, name ∈ u.factors.map Factor.name := by
  obtain ⟨scaled, multiplied, h⟩ := bind_eq_ok.mp h
  obtain ⟨ws, normalized, h⟩ := bind_eq_ok.mp h
  cases h
  obtain ⟨times, names⟩ := Factor.mapPowers_multiply_eq_ok multiplied
  refine ⟨?_, Factor.normal_normalize normalized, ?_⟩
  · intro name
    rw [Factor.total_normalize normalized, times]
  · intro name mem
    rw [← names]
    exact Factor.names_normalize normalized mem

theorem isDimensionless_of_normal (h : Normal u.factors) : u.isDimensionless = .ok u.factors.isEmpty := by
  rw [isDimensionless, Factor.normalize_of_normal h]
  rfl

theorem sameFactors_eq_ok {b : Bool} (h : u.sameFactors v = .ok b) :
    b = true ↔ total u.factors = total v.factors := by
  obtain ⟨us, left, h⟩ := bind_eq_ok.mp h
  obtain ⟨vs, right, h⟩ := bind_eq_ok.mp h
  cases h
  rw [List.isPerm_iff, ← Factor.total_normalize left, ← Factor.total_normalize right]
  exact ⟨Factor.total_perm, (Factor.normal_normalize left).perm (Factor.normal_normalize right)⟩

theorem sameFactors_of_normal (hu : Normal u.factors) (hv : Normal v.factors) :
    u.sameFactors v = .ok (u.factors.isPerm v.factors) := by
  rw [sameFactors, Factor.normalize_of_normal hu, Factor.normalize_of_normal hv]
  rfl

/-- The root of a normal form: it exists if all powers are even, and twice its powers are the powers. -/
theorem halve?_eq_some_iff (normal : Normal u.factors) :
    u.halve? = some w ↔
      (∀ f ∈ u.factors, f.power.toInt % 2 = 0) ∧
        w = ⟨u.factors.map fun f => ⟨f.name, Int32.ofInt (f.power.toInt / 2)⟩⟩ := by
  rw [halve?, Factor.normalize_of_normal normal]
  simp only [Except.toOption, guard, Option.bind_eq_bind, Option.bind_some]
  by_cases even : u.factors.all fun f => f.power.toInt % 2 = 0
  · rw [if_pos even]
    constructor
    · intro h
      exact ⟨by simpa using even, (Option.some.inj h).symm⟩
    · rintro ⟨-, rfl⟩
      rfl
  · rw [if_neg even]
    constructor
    · intro h
      cases h
    · rintro ⟨allEven, -⟩
      exact absurd (by simpa using allEven) even

theorem toInt_half (p : Int32) : (Int32.ofInt (p.toInt / 2)).toInt = p.toInt / 2 := by
  have := p.le_toInt
  have := p.toInt_lt
  exact Int32.toInt_ofInt_of_le (by omega) (by omega)

/-- Halving even powers halves their sums. -/
theorem total_halves {us : List Factor} (even : ∀ f ∈ us, f.power.toInt % 2 = 0) (name : String) :
    2 * total (us.map fun f => ⟨f.name, Int32.ofInt (f.power.toInt / 2)⟩) name = total us name := by
  induction us with
  | nil => rfl
  | cons u us ih =>
    obtain ⟨first, rest⟩ := List.forall_mem_cons.mp even
    rw [List.map_cons, Factor.total_cons, Factor.total_cons, Int.mul_add, ih rest]
    dsimp only
    rw [toInt_half]
    split <;> omega

end Mensura.UnitExpr

