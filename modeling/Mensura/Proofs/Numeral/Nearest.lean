import Mathlib.Algebra.Order.Ring.Nat
import Mathlib.Tactic.Ring
import Mathlib.Tactic.SplitIfs

/-!
Integers to the nearest ones of 53 binary digits. Of an integer with more digits those behind the first 53 are rounded
away, and what is halfway between two goes to the even one. Main statement: this keeps the order of integers, though not
strictly, and it leaves those of at most 53 digits as they are.
-/

namespace Mensura

/-- `m` divided by `2 ^ s`, to the nearest integer, or to the even one of two. -/
def halfEven (m s : Nat) : Nat :=
  if 2 * (m % 2 ^ s) < 2 ^ s then m / 2 ^ s
  else if 2 ^ s < 2 * (m % 2 ^ s) then m / 2 ^ s + 1
  else m / 2 ^ s + m / 2 ^ s % 2

theorem div_le_halfEven (m s : Nat) : m / 2 ^ s ≤ halfEven m s := by
  unfold halfEven
  split
  · exact Nat.le_refl _
  · split <;> omega

theorem halfEven_le (m s : Nat) : halfEven m s ≤ m / 2 ^ s + 1 := by
  unfold halfEven
  split
  · omega
  · split <;> omega

theorem halfEven_mono {m n : Nat} (h : m ≤ n) (s : Nat) : halfEven m s ≤ halfEven n s := by
  obtain less | same := Nat.lt_or_eq_of_le (Nat.div_le_div_right (c := 2 ^ s) h)
  · exact Nat.le_trans (halfEven_le m s) (Nat.le_trans less (div_le_halfEven n s))
  · -- Where the quotients agree, the remainders are in order.
    have m_split := Nat.div_add_mod m (2 ^ s)
    have n_split := Nat.div_add_mod n (2 ^ s)
    rw [same] at m_split
    unfold halfEven
    rw [same]
    split_ifs <;> omega

theorem halfEven_zero (m : Nat) : halfEven m 0 = m := by
  simp only [halfEven, Nat.pow_zero, Nat.mod_one, Nat.div_one]
  rfl

/-- Digits that are zero may be left out. -/
theorem halfEven_mul (m s j : Nat) : halfEven (m * 2 ^ j) (s + j) = halfEven m s := by
  have positive : 0 < 2 ^ j := Nat.two_pow_pos j
  have quotient : m * 2 ^ j / 2 ^ (s + j) = m / 2 ^ s := by
    rw [Nat.pow_add, Nat.mul_div_mul_right _ _ positive]
  have remainder : m * 2 ^ j % 2 ^ (s + j) = m % 2 ^ s * 2 ^ j := by
    rw [Nat.pow_add, Nat.mul_mod_mul_right]
  have less (a b : Nat) : a * 2 ^ j < b * 2 ^ j ↔ a < b := Nat.mul_lt_mul_right positive
  simp only [halfEven, quotient, remainder, ← Nat.mul_assoc]
  simp only [Nat.pow_add, less]

/-- How many digits are rounded away. -/
def surplus (m : Nat) : Nat := m.log2 - 52

/-- The nearest number of 53 digits. -/
def nearest (m : Nat) : Nat := halfEven m (surplus m) * 2 ^ surplus m

theorem surplus_eq_zero {m : Nat} (h : m < 2 ^ 53) : surplus m = 0 := by
  obtain rfl | positive := Nat.eq_zero_or_pos m
  · rfl
  · have := (Nat.log2_lt (Nat.ne_of_gt positive)).mpr h
    rw [surplus]
    omega

theorem nearest_of_lt {m : Nat} (h : m < 2 ^ 53) : nearest m = m := by
  rw [nearest, surplus_eq_zero h, halfEven_zero, Nat.pow_zero, Nat.mul_one]

/-- With no more digits than 53, and no less if there have been as many. -/
theorem div_surplus_lt (m : Nat) : m / 2 ^ surplus m < 2 ^ 53 := by
  rw [Nat.div_lt_iff_lt_mul (Nat.two_pow_pos _), ← Nat.pow_add]
  have fits : m < 2 ^ (m.log2 + 1) := Nat.lt_log2_self
  exact Nat.lt_of_lt_of_le fits (Nat.pow_le_pow_right (by decide) (by unfold surplus; omega))

theorem le_div_surplus {m : Nat} (h : 2 ^ 52 ≤ m) : 2 ^ 52 ≤ m / 2 ^ surplus m := by
  have positive : m ≠ 0 := by rintro rfl; exact absurd h (by decide)
  have digits : 52 ≤ m.log2 := (Nat.le_log2 positive).mpr h
  rw [Nat.le_div_iff_mul_le (Nat.two_pow_pos _), ← Nat.pow_add, surplus, Nat.add_sub_cancel' digits]
  exact Nat.log2_self_le positive

theorem surplus_mono {m n : Nat} (h : m ≤ n) : surplus m ≤ surplus n := by
  obtain rfl | positive := Nat.eq_zero_or_pos m
  · exact Nat.zero_le _
  · have lower := Nat.log2_self_le (Nat.ne_of_gt positive)
    have := (Nat.le_log2 (by omega : n ≠ 0)).mpr (Nat.le_trans lower h)
    exact Nat.sub_le_sub_right this 52

theorem nearest_mono {m n : Nat} (h : m ≤ n) : nearest m ≤ nearest n := by
  obtain less | same := Nat.lt_or_eq_of_le (surplus_mono h)
  · have upper : halfEven m (surplus m) ≤ 2 ^ 53 := Nat.le_trans (halfEven_le m _) (div_surplus_lt m)
    have digits : 2 ^ 52 ≤ n := by
      by_contra small
      rw [surplus_eq_zero (by omega : n < 2 ^ 53)] at less
      exact absurd less (Nat.not_lt_zero _)
    have lower : 2 ^ 52 ≤ halfEven n (surplus n) := Nat.le_trans (le_div_surplus digits) (div_le_halfEven n _)
    calc nearest m ≤ 2 ^ 53 * 2 ^ surplus m := Nat.mul_le_mul_right _ upper
      _ = 2 ^ 52 * 2 ^ (surplus m + 1) := by rw [Nat.pow_succ]; ring
      _ ≤ 2 ^ 52 * 2 ^ surplus n := Nat.mul_le_mul_left _ (Nat.pow_le_pow_right (by decide) less)
      _ ≤ nearest n := Nat.mul_le_mul_right _ lower
  · rw [nearest, nearest, same]
    exact Nat.mul_le_mul_right _ (halfEven_mono h _)

/-- The nearest integer of 53 digits, which has the same sign. -/
def nearestInt (n : Int) : Int := if n < 0 then -(nearest n.natAbs : Int) else nearest n.natAbs

theorem nearestInt_mono {m n : Int} (h : m ≤ n) : nearestInt m ≤ nearestInt n := by
  unfold nearestInt
  split
  · split
    · have := nearest_mono (m := n.natAbs) (n := m.natAbs) (by omega)
      omega
    · omega
  · rw [if_neg (by omega)]
    have := nearest_mono (m := m.natAbs) (n := n.natAbs) (by omega)
    omega

end Mensura
