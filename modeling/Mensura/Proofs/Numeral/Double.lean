import Mathlib
import Mensura.Proofs.Numeral.Nearest

/-!
Integers as floating-point numbers. The floating-point number of an integer stands for the nearest integer of 53 binary
digits. Main statement: integers of up to 64 bits compare as floating-point numbers as their nearest integers of 53
digits compare.
-/

namespace Mensura

open Float.Model
open Float.Model.UnpackedFloat (Sign ExtendedMantissa shiftToTargetExponent roundWithAccuracy)

/-! ### Rounding -/

/-- The digits that are shifted out leave the first of them and whether there are others. -/
theorem shift_eq (m n : Nat) :
    (ExtendedMantissa.mk m false false) >>> n =
      ⟨m / 2 ^ n, m % 2 ^ n / 2 ^ (n - 1) != 0, m % 2 ^ (n - 1) != 0⟩ := by
  induction n with
  | zero =>
    change ExtendedMantissa.mk m false false = _
    simp [Nat.mod_one]
  | succ n ih =>
    change ((ExtendedMantissa.mk m false false) >>> n).shiftRightOne = _
    have quotient : m / 2 ^ n / 2 = m / 2 ^ (n + 1) := by rw [Nat.div_div_eq_div_mul, Nat.pow_succ]
    have first : m % 2 ^ (n + 1) / 2 ^ n = m / 2 ^ n % 2 := by rw [Nat.pow_succ, Nat.mod_mul_right_div_self]
    have others : (m % 2 ^ n / 2 ^ (n - 1) != 0 || m % 2 ^ (n - 1) != 0) = (m % 2 ^ n != 0) := by
      cases n with
      | zero => simp [Nat.mod_one]
      | succ k =>
        have below : m % 2 ^ (k + 1) % 2 ^ k = m % 2 ^ k :=
          Nat.mod_mod_of_dvd m (Nat.pow_dvd_pow 2 (Nat.le_succ k))
        have split := Nat.div_add_mod (m % 2 ^ (k + 1)) (2 ^ k)
        rw [below] at split
        rw [Nat.add_sub_cancel, Bool.eq_iff_iff, Bool.or_eq_true, bne_iff_ne, bne_iff_ne, bne_iff_ne]
        constructor
        · rintro (some | some) none
          · exact some (by rw [none, Nat.zero_div])
          · omega
        · intro some
          by_contra none
          rw [not_or, not_not, not_not] at none
          rw [none.1, none.2, Nat.mul_zero] at split
          exact some split.symm
    rw [ih, ExtendedMantissa.shiftRightOne]
    simp only [Nat.add_sub_cancel, quotient, first, others]

theorem roundedMantissa_eq (m n : Nat) :
    ((ExtendedMantissa.mk m false false) >>> n).roundedMantissa = halfEven m n := by
  rw [shift_eq]
  cases n with
  | zero => simp [halfEven_zero, Nat.mod_one, ExtendedMantissa.roundedMantissa, ExtendedMantissa.accuracy,
      UnpackedFloat.Accuracy.roundToNearestEven]
  | succ k =>
    have below : m % 2 ^ (k + 1) % 2 ^ k = m % 2 ^ k :=
      Nat.mod_mod_of_dvd m (Nat.pow_dvd_pow 2 (Nat.le_succ k))
    have split := Nat.div_add_mod (m % 2 ^ (k + 1)) (2 ^ k)
    have rest : m % 2 ^ (k + 1) < 2 ^ (k + 1) := Nat.mod_lt _ (Nat.two_pow_pos _)
    have few : m % 2 ^ k < 2 ^ k := Nat.mod_lt _ (Nat.two_pow_pos _)
    have bit : m % 2 ^ (k + 1) / 2 ^ k < 2 := by
      rw [Nat.div_lt_iff_lt_mul (Nat.two_pow_pos k), ← Nat.pow_succ']
      exact rest
    rw [below] at split
    rw [Nat.add_sub_cancel, halfEven]
    generalize m % 2 ^ (k + 1) / 2 ^ k = b at *
    generalize m % 2 ^ k = t at *
    rw [← split, Nat.pow_succ']
    obtain rfl | rfl : b = 0 ∨ b = 1 := by omega
    · -- less than a half
      rw [if_pos (by omega)]
      cases (t != 0) <;> rfl
    · rw [if_neg (by omega)]
      by_cases half : t = 0
      · rw [half, if_neg (by omega)]
        rfl
      · rw [if_pos (by omega), bne_iff_ne.mpr half]
        rfl

theorem shiftToTargetExponent_eq (m : Nat) {e : Int} (normal : -1074 ≤ e) :
    shiftToTargetExponent Format.binary64 m e .exact =
      ((ExtendedMantissa.mk m false false) >>> surplus m, e + surplus m) := by
  have amount : (Format.binary64.targetExponent (totalExponent m e) - e).toNat = surplus m := by
    simp only [Format.targetExponent, totalExponent, Format.mantissaBits, Format.minExponent, surplus]
    omega
  rw [shiftToTargetExponent, UnpackedFloat.shiftToExponent, amount]
  rfl

/-- Rounding may carry into a digit more, which is then shifted out. -/
theorem roundWithAccuracy_eq (s : Sign) {m : Nat} {e : Int} (normal : -1074 ≤ e) (large : 2 ^ 52 ≤ m) :
    ∃ M positive, roundWithAccuracy Format.binary64 s m e .exact =
        .finite s M (e + surplus m + surplus (halfEven m (surplus m))) positive ∧
      2 ^ 52 ≤ M ∧ M < 2 ^ 53 ∧ M * 2 ^ surplus (halfEven m (surplus m)) = halfEven m (surplus m) := by
  have lower : 2 ^ 52 ≤ halfEven m (surplus m) := Nat.le_trans (le_div_surplus large) (div_le_halfEven m _)
  have upper : halfEven m (surplus m) ≤ 2 ^ 53 := Nat.le_trans (halfEven_le m _) (div_surplus_lt m)
  generalize rounded : halfEven m (surplus m) = R at lower upper
  have whole : R / 2 ^ surplus R * 2 ^ surplus R = R := by
    obtain less | same := Nat.lt_or_eq_of_le upper
    · rw [surplus_eq_zero less, Nat.pow_zero, Nat.div_one, Nat.mul_one]
    · rw [same, surplus, Nat.log2_two_pow]
      rfl
  have normal' : -1074 ≤ e + surplus m := by omega
  have positive : R / 2 ^ surplus R ≠ 0 := Nat.ne_of_gt (Nat.lt_of_lt_of_le (by decide) (le_div_surplus lower))
  refine ⟨R / 2 ^ surplus R, Nat.pos_of_ne_zero positive, ?_, le_div_surplus lower, div_surplus_lt R, whole⟩
  simp only [roundWithAccuracy, shiftToTargetExponent_eq m normal, roundedMantissa_eq, rounded,
    shiftToTargetExponent_eq R normal', shift_eq R, dif_neg positive]

/-- The number stands for the integer `v` with the sign `s`. If it is not zero, its first digit is the first of the 53
that there is room for. -/
inductive Denotes (s : Sign) : Nat → UnpackedFloat → Prop where
  | zero : Denotes s 0 (.zero s)
  | finite {v M e : Nat} (lower : 2 ^ 52 ≤ M) (upper : M < 2 ^ 53) (value : M * 2 ^ e = v * 2 ^ 52)
      (positive : 0 < M) : Denotes s v (.finite s M (e - 52) positive)

theorem log2_mul_two_pow {m : Nat} (positive : 0 < m) (j : Nat) : (m * 2 ^ j).log2 = m.log2 + j := by
  rw [Nat.log2_eq_iff (Nat.ne_of_gt (Nat.mul_pos positive (Nat.two_pow_pos j)))]
  constructor
  · rw [Nat.pow_add]
    exact Nat.mul_le_mul_right _ (Nat.log2_self_le (Nat.ne_of_gt positive))
  · rw [Nat.add_right_comm, Nat.pow_add]
    exact Nat.mul_lt_mul_of_pos_right Nat.lt_log2_self (Nat.two_pow_pos j)

/-- A positive integer is rounded to its nearest one, however many zeros stand behind it. -/
theorem denotes_round (s : Sign) {m j : Nat} (positive : 0 < m) (large : 2 ^ 52 ≤ m * 2 ^ j) (room : j ≤ 1000) :
    Denotes s (nearest m) (roundWithAccuracy Format.binary64 s (m * 2 ^ j) (-j) .exact) := by
  obtain ⟨M, isPositive, round, lower, upper, whole⟩ := roundWithAccuracy_eq s (e := -j) (by omega) large
  have digits : 52 ≤ m.log2 + j := by
    rw [← log2_mul_two_pow positive]
    exact (Nat.le_log2 (Nat.ne_of_gt (by omega))).mpr large
  have dropped : surplus (m * 2 ^ j) = m.log2 + j - 52 := by rw [surplus, log2_mul_two_pow positive]
  have value : halfEven (m * 2 ^ j) (surplus (m * 2 ^ j)) * 2 ^ m.log2 = nearest m * 2 ^ 52 := by
    rw [dropped]
    by_cases many : 52 ≤ m.log2
    · have split : m.log2 + j - 52 = surplus m + j := by rw [surplus]; omega
      rw [split, halfEven_mul, nearest, Nat.mul_assoc, ← Nat.pow_add, surplus, Nat.sub_add_cancel many]
    · -- All digits are kept, and there are zeros to drop.
      obtain ⟨i, rfl⟩ : ∃ i, j = 52 - m.log2 + i := ⟨j - (52 - m.log2), by omega⟩
      have split : m.log2 + (52 - m.log2 + i) - 52 = 0 + i := by omega
      have small : m < 2 ^ 53 := (Nat.log2_lt (Nat.ne_of_gt positive)).mp (by omega)
      rw [split, Nat.pow_add, ← Nat.mul_assoc, halfEven_mul, halfEven_zero, nearest_of_lt small, Nat.mul_assoc,
        ← Nat.pow_add, Nat.sub_add_cancel (by omega)]
  have exponent : -(j : Int) + surplus (m * 2 ^ j) + surplus (halfEven (m * 2 ^ j) (surplus (m * 2 ^ j))) =
      (m.log2 + surplus (halfEven (m * 2 ^ j) (surplus (m * 2 ^ j))) : Nat) - 52 := by
    rw [dropped]
    omega
  rw [round]
  simp only [exponent]
  refine .finite lower upper ?_ isPositive
  rw [Nat.add_comm, Nat.pow_add, ← Nat.mul_assoc, whole, value]

theorem mul_positive (s : Sign) : s * .positive = s := by cases s <;> rfl

/-- Rounding what has been rounded, with zeros behind it, changes nothing. -/
theorem denotes_mul_one {s : Sign} {v : Nat} {x : UnpackedFloat} (h : Denotes s v x) :
    Denotes s v (.mul Format.binary64 x (.finite .positive (2 ^ 52) (-52) (by decide))) := by
  cases h with
  | zero =>
    rw [UnpackedFloat.mul, mul_positive]
    exact .zero
  | @finite _ M e lower upper value positive =>
    have digits : M.log2 = 52 := (Nat.log2_eq_iff (Nat.ne_of_gt positive)).mpr ⟨lower, upper⟩
    have dropped : surplus (M * 2 ^ 52) = 52 := by rw [surplus, log2_mul_two_pow positive, digits]
    have kept : halfEven (M * 2 ^ 52) 52 = M := by
      have := halfEven_mul M 0 52
      rwa [Nat.zero_add, halfEven_zero] at this
    obtain ⟨M', positive', round, -, -, whole⟩ :=
      roundWithAccuracy_eq s (m := M * 2 ^ 52) (e := (e : Int) - 52 + -52) (by omega)
        (Nat.le_mul_of_pos_left _ positive)
    rw [dropped, kept, surplus_eq_zero upper, Nat.pow_zero, Nat.mul_one] at whole
    subst whole
    have exponent : (e : Int) - 52 + -52 + (52 : Nat) + (0 : Nat) = e - 52 := by omega
    rw [UnpackedFloat.mul, mul_positive, round]
    simp only [dropped, kept, surplus_eq_zero upper, exponent]
    exact .finite lower upper value positive

/-! ### Bits -/

theorem unpack_packZero (s : Sign) : (Float.Model.pack (.zero s)).unpack = .zero s := by
  cases s <;> rfl

/-- The exponent of an integer of up to 64 bits is far from the ends of the exponents. -/
theorem exponent_le {M e v : Nat} (lower : 2 ^ 52 ≤ M) (value : M * 2 ^ e = v * 2 ^ 52) (fits : v ≤ 2 ^ 64) : e ≤ 64 := by
  have bound : 2 ^ 52 * 2 ^ e ≤ 2 ^ 52 * 2 ^ 64 := calc
    2 ^ 52 * 2 ^ e ≤ M * 2 ^ e := Nat.mul_le_mul_right _ lower
    _ = v * 2 ^ 52 := value
    _ ≤ 2 ^ 52 * 2 ^ 64 := by omega
  exact (Nat.pow_le_pow_iff_right (by decide)).mp (Nat.le_of_mul_le_mul_left bound (by decide))

theorem toNat_exponent {e : Nat} (small : e ≤ 64) : (BitVec.ofNat 11 (e + 1023)).toNat = e + 1023 := by
  rw [BitVec.toNat_ofNat, Nat.mod_eq_of_lt (by omega)]

/-- These bits are neither those of the infinities nor those of the subnormal numbers. -/
theorem exponent_ordinary {e : Nat} (small : e ≤ 64) :
    BitVec.ofNat 11 (e + 1023) ≠ -1#11 ∧ BitVec.ofNat 11 (e + 1023) ≠ 0#11 := by
  constructor
  · intro same
    have ends := congrArg BitVec.toNat same
    rw [toNat_exponent small] at ends
    exact absurd ends (by simp only [BitVec.reduceNeg, BitVec.reduceToNat]; omega)
  · intro same
    have ends := congrArg BitVec.toNat same
    rw [toNat_exponent small] at ends
    exact absurd ends (by simp only [BitVec.reduceToNat]; omega)

/-- The first digit is left out of the bits, and put in front of them again. -/
theorem toNat_mantissa {M : Nat} (lower : 2 ^ 52 ≤ M) (upper : M < 2 ^ 53) :
    (1#1 ++ BitVec.ofNat 52 M).toNat = M := by
  rw [BitVec.toNat_append, ← Nat.shiftLeft_add_eq_or_of_lt (BitVec.isLt _), Nat.shiftLeft_eq, BitVec.toNat_ofNat,
    BitVec.toNat_ofNat]
  omega

theorem pack_finite (s : Sign) {M e : Nat} (positive : 0 < M) (lower : 2 ^ 52 ≤ M) (upper : M < 2 ^ 53)
    (small : e ≤ 64) : UnpackedFloat.pack Format.binary64 (.finite s M (e - 52) positive) =
      UnpackedFloat.packComponents Format.binary64 s (BitVec.ofNat 11 (e + 1023)) (BitVec.ofNat 52 M) := by
  have digits : M.log2 = 52 := (Nat.log2_eq_iff (Nat.ne_of_gt positive)).mpr ⟨lower, upper⟩
  have biased : ((e : Int) - 52 + Format.binary64.exponentBias + Format.binary64.mantissaBitsWithoutImplicit).toNat =
      e + 1023 := by
    simp only [Format.exponentBias]
    omega
  rw [UnpackedFloat.pack]
  simp only [biased, digits]
  rw [if_neg (by omega), if_pos (show 52 + 1 = Format.binary64.mantissaBits from rfl)]

theorem unpack_pack {s : Sign} {v : Nat} {x : UnpackedFloat} (h : Denotes s v x) (fits : v ≤ 2 ^ 64) :
    (Float.Model.pack x).unpack = x := by
  cases h with
  | zero => exact unpack_packZero s
  | @finite _ M e lower upper value positive =>
    have small := exponent_le lower value fits
    obtain ⟨notAll, notNone⟩ := exponent_ordinary small
    have unbiased : ((e + 1023 : Nat) : Int) -
        (Format.binary64.exponentBias + Format.binary64.mantissaBitsWithoutImplicit) = e - 52 := by
      simp only [Format.exponentBias]
      omega
    change UnpackedFloat.unpack Format.binary64 (UnpackedFloat.pack Format.binary64 _) = _
    rw [pack_finite s positive lower upper small, UnpackedFloat.unpack]
    simp only [UnpackedFloat.unpackExponent_packComponents, UnpackedFloat.unpackMantissa_packComponents,
      UnpackedFloat.unpackSign_packComponents, Sign.ofBitVec_toBitVec, if_neg notAll, if_neg notNone,
      toNat_mantissa lower upper, toNat_exponent small, unbiased]

/-! ### Integers -/

theorem nearest_le {m : Nat} (fits : m < 2 ^ 64) : nearest m ≤ 2 ^ 64 := by
  have top : nearest (2 ^ 64) = 2 ^ 64 := by decide
  exact Nat.le_trans (nearest_mono (Nat.le_of_lt fits)) (Nat.le_of_eq top)

/-- A word is rounded once. -/
theorem denotes_ofUInt64 {m : Nat} (small : m < 2 ^ 53) :
    Denotes .positive (nearest m) (UnpackedFloat.ofUInt64 Format.binary64 m.toUInt64) := by
  have word : m.toUInt64.toNat = m := UInt64.toNat_ofNat_of_lt' (Nat.lt_trans small (by decide))
  rw [UnpackedFloat.ofUInt64, word, UnpackedFloat.ofNat, UnpackedFloat.ofInt, UnpackedFloat.normalize]
  obtain rfl | positive := Nat.eq_zero_or_pos m
  · exact .zero
  · have greater : compare (m : Int) 0 = .gt := compare_gt_iff_gt.mpr (by omega)
    have digits : m.log2 < 53 := (Nat.log2_lt (Nat.ne_of_gt positive)).mpr small
    have amount : (-Format.binary64.targetExponent (totalExponent m 0)).toNat = 52 - m.log2 := by
      simp only [Format.targetExponent, totalExponent, Format.mantissaBits, Format.minExponent]
      omega
    have large : 2 ^ 52 ≤ m * 2 ^ (52 - m.log2) := calc
      2 ^ 52 = 2 ^ m.log2 * 2 ^ (52 - m.log2) := by rw [← Nat.pow_add, Nat.add_sub_cancel' (by omega)]
      _ ≤ m * 2 ^ (52 - m.log2) := Nat.mul_le_mul_right _ (Nat.log2_self_le (Nat.ne_of_gt positive))
    rw [greater]
    simp only [UnpackedFloat.round, UnpackedFloat.decreaseExponent, Int.toNat_natCast, Int.zero_sub, amount,
      Nat.shiftLeft_eq]
    exact denotes_round .positive positive large (by omega)

theorem denotes_ofScientific {m : Nat} (large : 2 ^ 53 ≤ m) :
    Denotes .positive (nearest m) (UnpackedFloat.ofScientific Format.binary64 m 0) := by
  have positive : 0 < m := by omega
  have tiny : ¬ (0 : Int) < -((2 ^ 11 : Int) + m.log2) := by omega
  rw [UnpackedFloat.ofScientific, dif_neg (Nat.ne_of_gt positive), if_neg (by decide), if_neg tiny,
    if_pos (Int.le_refl 0)]
  simp only [UnpackedFloat.mul, mul_positive, Nat.shiftLeft_eq, Int.toNat_zero, Nat.pow_zero, Nat.mul_one, Int.add_zero]
  have room : 2 ^ 52 ≤ m * 2 ^ 53 := by omega
  exact denotes_round .positive positive room (by decide)

theorem denotes_ofNat {m : Nat} (fits : m < 2 ^ 64) :
    Denotes .positive (nearest m) (Float.ofNat m).toModel.unpack := by
  have bounded := nearest_le fits
  by_cases small : m < 2 ^ 53
  · have one : (Float.ofBits 0x3FF0000000000000).toModel.unpack = .finite .positive (2 ^ 52) (-52) (by decide) := rfl
    have word := denotes_ofUInt64 small
    have exact : (Float.ofNat m).toModel.unpack =
        (Float.Model.pack (.mul Format.binary64 (Float.Model.pack (.ofUInt64 Format.binary64 m.toUInt64)).unpack
          (Float.ofBits 0x3FF0000000000000).toModel.unpack)).unpack := by
      rw [Float.ofNat]
      simp only [OfScientific.ofScientific, Float.ofScientific]
      rw [dif_pos ⟨small, by decide⟩]
      rfl
    rw [exact, one, unpack_pack word bounded, unpack_pack (denotes_mul_one word) bounded]
    exact denotes_mul_one word
  · have large := denotes_ofScientific (Nat.not_lt.mp small)
    have slow : (Float.ofNat m).toModel.unpack =
        (Float.Model.pack (.ofScientific Format.binary64 m 0)).unpack := by
      rw [Float.ofNat]
      simp only [OfScientific.ofScientific, Float.ofScientific]
      rw [dif_neg (by omega)]
      rfl
    rw [slow, unpack_pack large bounded]
    exact large

theorem denotes_neg {s : Sign} {v : Nat} {x : UnpackedFloat} (h : Denotes s v x) : Denotes (-s) v x.neg := by
  cases h with
  | zero => exact .zero
  | finite lower upper value positive => exact .finite lower upper value positive

/-- The floating-point number of an integer stands for the nearest integer of 53 digits. -/
theorem denotes_ofInt {n : Int} (fits : n.natAbs < 2 ^ 64) :
    ∃ s v, Denotes s v (Float.ofInt n).toModel.unpack ∧ s.apply v = nearestInt n := by
  cases n with
  | ofNat m => exact ⟨.positive, nearest m, denotes_ofNat fits, (if_neg (Int.not_lt.mpr (Int.natCast_nonneg m))).symm⟩
  | negSucc m =>
    have denotes := denotes_neg (denotes_ofNat (m := m + 1) (by omega))
    have same : (Float.ofInt (.negSucc m)).toModel.unpack =
        (Float.Model.pack (Float.ofNat (m + 1)).toModel.unpack.neg).unpack := rfl
    refine ⟨.negative, nearest (m + 1), ?_, (if_pos (by omega)).symm⟩
    rw [same, unpack_pack denotes (nearest_le (by omega))]
    exact denotes

/-! ### Comparison -/

/-- Numbers whose first digits stand in the same place are ordered by their exponents, then by their digits. -/
theorem compare_exponents {M N e f v w : Nat} (lower : 2 ^ 52 ≤ M) (upper : M < 2 ^ 53) (lower' : 2 ^ 52 ≤ N)
    (upper' : N < 2 ^ 53) (value : M * 2 ^ e = v * 2 ^ 52) (value' : N * 2 ^ f = w * 2 ^ 52) :
    (compare ((e : Int) - 52) (f - 52)).then (compare M N) = compare v w := by
  have less {M N e f : Nat} (upper : M < 2 ^ 53) (lower : 2 ^ 52 ≤ N) (h : e < f) : M * 2 ^ e < N * 2 ^ f := calc
    M * 2 ^ e < 2 ^ 53 * 2 ^ e := Nat.mul_lt_mul_of_pos_right upper (Nat.two_pow_pos e)
    _ = 2 ^ 52 * 2 ^ (e + 1) := by rw [Nat.pow_succ]; ring
    _ ≤ 2 ^ 52 * 2 ^ f := Nat.mul_le_mul_left _ (Nat.pow_le_pow_right (by decide) h)
    _ ≤ N * 2 ^ f := Nat.mul_le_mul_right _ lower
  obtain before | rfl | behind := Nat.lt_trichotomy e f
  · have := less upper lower' before
    rw [compare_lt_iff_lt.mpr (by omega : (e : Int) - 52 < f - 52), compare_lt_iff_lt.mpr (by omega : v < w)]
    rfl
  · have same : compare ((e : Int) - 52) (e - 52) = .eq := compare_eq_iff_eq.mpr rfl
    have positive := Nat.two_pow_pos e
    rw [same, Ordering.eq_then]
    obtain before | rfl | behind := Nat.lt_trichotomy M N
    · have := Nat.mul_lt_mul_of_pos_right before positive
      rw [compare_lt_iff_lt.mpr before, compare_lt_iff_lt.mpr (by omega : v < w)]
    · rw [compare_eq_iff_eq.mpr rfl, compare_eq_iff_eq.mpr (by omega : v = w)]
    · have := Nat.mul_lt_mul_of_pos_right behind positive
      rw [compare_gt_iff_gt.mpr behind, compare_gt_iff_gt.mpr (by omega : v > w)]
  · have := less upper' lower behind
    rw [compare_gt_iff_gt.mpr (by omega : (e : Int) - 52 > f - 52), compare_gt_iff_gt.mpr (by omega : v > w)]
    rfl

theorem compare_natCast (v w : Nat) : compare (v : Int) w = compare v w := by
  obtain before | rfl | behind := Nat.lt_trichotomy v w
  · rw [compare_lt_iff_lt.mpr before, compare_lt_iff_lt.mpr (by omega)]
  · rw [compare_eq_iff_eq.mpr rfl, compare_eq_iff_eq.mpr rfl]
  · rw [compare_gt_iff_gt.mpr behind, compare_gt_iff_gt.mpr (by omega)]

theorem compare_neg (a b : Int) : compare (-a) (-b) = (compare a b).swap := by
  obtain before | rfl | behind := Int.lt_trichotomy a b
  · rw [compare_lt_iff_lt.mpr before, compare_gt_iff_gt.mpr (by omega)]
    rfl
  · rw [compare_eq_iff_eq.mpr rfl, compare_eq_iff_eq.mpr rfl]
    rfl
  · rw [compare_gt_iff_gt.mpr behind, compare_lt_iff_lt.mpr (by omega)]
    rfl

theorem compare_denotes {s t : Sign} {v w : Nat} {x y : UnpackedFloat} (hx : Denotes s v x) (hy : Denotes t w y) :
    x.compare y = some (compare (s.apply v) (t.apply w)) := by
  have visible {M e v : Nat} (positive : 0 < M) (value : M * 2 ^ e = v * 2 ^ 52) : 0 < v := by
    have := Nat.mul_pos positive (Nat.two_pow_pos e)
    omega
  have less {a b : Int} (h : a < b) : some .lt = some (compare a b) := congrArg some (compare_lt_iff_lt.mpr h).symm
  have greater {a b : Int} (h : b < a) : some .gt = some (compare a b) := congrArg some (compare_gt_iff_gt.mpr h).symm
  cases hx with
  | zero =>
    cases hy with
    | zero => cases s <;> cases t <;> rfl
    | finite _ _ value positive =>
      have := visible positive value
      cases t with
      | positive => cases s <;> exact less (by simp only [Sign.apply]; omega)
      | negative => cases s <;> exact greater (by simp only [Sign.apply]; omega)
  | finite lower upper value positive =>
    have := visible positive value
    cases hy with
    | zero =>
      cases s with
      | positive => cases t <;> exact greater (by simp only [Sign.apply]; omega)
      | negative => cases t <;> exact less (by simp only [Sign.apply]; omega)
    | finite lower' upper' value' positive' =>
      have := visible positive' value'
      have magnitudes := compare_exponents lower upper lower' upper' value value'
      cases s with
      | positive =>
        cases t with
        | positive => simp only [UnpackedFloat.compare, magnitudes, Sign.apply, compare_natCast]
        | negative => exact greater (by simp only [Sign.apply]; omega)
      | negative =>
        cases t with
        | positive => exact less (by simp only [Sign.apply]; omega)
        | negative => simp only [UnpackedFloat.compare, magnitudes, Sign.apply, compare_neg, compare_natCast]

/-- Floating-point numbers of integers compare as the nearest integers of 53 digits. -/
theorem compare_ofInt {m n : Int} (hm : m.natAbs < 2 ^ 64) (hn : n.natAbs < 2 ^ 64) :
    (Float.ofInt m).toModel.unpack.compare (Float.ofInt n).toModel.unpack =
      some (compare (nearestInt m) (nearestInt n)) := by
  obtain ⟨s, v, denotes, left⟩ := denotes_ofInt hm
  obtain ⟨t, w, denotes', right⟩ := denotes_ofInt hn
  rw [compare_denotes denotes denotes', left, right]

theorem ofInt_lt_iff {m n : Int} (hm : m.natAbs < 2 ^ 64) (hn : n.natAbs < 2 ^ 64) :
    Float.ofInt m < Float.ofInt n ↔ nearestInt m < nearestInt n := by
  change decide (UnpackedFloat.lt _ _ = true) = true ↔ _
  rw [decide_eq_true_eq, UnpackedFloat.lt, compare_ofInt hm hn, beq_iff_eq, Option.some_inj, compare_lt_iff_lt]

theorem ofInt_le_iff {m n : Int} (hm : m.natAbs < 2 ^ 64) (hn : n.natAbs < 2 ^ 64) :
    Float.ofInt m ≤ Float.ofInt n ↔ nearestInt m ≤ nearestInt n := by
  change decide (UnpackedFloat.le _ _ = true) = true ↔ _
  rw [decide_eq_true_eq, UnpackedFloat.le, compare_ofInt hm hn, Option.any_some, Ordering.isLE_iff_ne_gt]
  exact compare_le_iff_le

end Mensura
