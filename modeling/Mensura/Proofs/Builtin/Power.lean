import Mathlib.Algebra.Order.Ring.Int
import Mathlib.Algebra.Order.GroupWithZero.Basic
import Mensura.Evaluation.Program

/-!
Powers of integers. A base other than -1, 0 and 1 has its exact power where that fits a word, and none
elsewhere. The powers of -1, 0 and 1 always fit, but are only given for exponents below `exponentBound`: an
exponent that is out of bounds is reported as if the power were.
-/

namespace Mensura.Builtin

/-- Powers of -1, 0 and 1 do not grow, so that a small exponent of the same parity stands for any other. -/
theorem pow_alike {b : Int} (small : b.natAbs ≤ 1) (n : Nat) : b ^ alike n = b ^ n := by
  have hb : b = -1 ∨ b = 0 ∨ b = 1 := by omega
  obtain rfl | hn := Nat.eq_zero_or_pos n
  · rfl
  have positive : alike n ≠ 0 := by
    simp only [alike, Nat.ne_of_gt hn, if_false]
    omega
  rcases hb with rfl | rfl | rfl
  · obtain even | odd := Nat.mod_two_eq_zero_or_one n
    · have : alike n = 2 := by simp only [alike, Nat.ne_of_gt hn, if_false, even]
      rw [this, (Nat.even_iff.mpr even).neg_one_pow]
      rfl
    · have : alike n = 1 := by simp only [alike, Nat.ne_of_gt hn, if_false, odd]
      rw [this, (Nat.odd_iff.mpr odd).neg_one_pow]
      rfl
  · rw [zero_pow positive, zero_pow (Nat.ne_of_gt hn)]
  · rw [one_pow, one_pow]

/-- From 2 on, and from -2 downwards, the 64th power is beyond every word, and so are those behind it. -/
theorem int64?_pow_of_large {b : Int} (large : 2 ≤ b.natAbs) {n : Nat} (hn : 64 ≤ n) :
    int64? (b ^ n) = none := by
  have grows : 2 ^ 64 ≤ (b ^ n).natAbs := calc
    2 ^ 64 ≤ 2 ^ n := Nat.pow_le_pow_right (by decide) hn
    _ ≤ b.natAbs ^ n := Nat.pow_le_pow_left large n
    _ = (b ^ n).natAbs := (Int.natAbs_pow b n).symm
  rw [int64?_eq_none_iff]
  omega

/-- The shortcuts for small bases and for large exponents make no difference. -/
theorem exactPower?_eq (base : Int64) (n : Nat) : exactPower? base n = int64? (base.toInt ^ n) := by
  unfold exactPower?
  split
  · next small => exact congrArg int64? (pow_alike small n)
  · next large =>
    split
    · rfl
    · next hn => exact (int64?_pow_of_large (by omega) (by omega)).symm

/-- A power of -1, 0 or 1 is one of these, so it fits. -/
theorem exists_pow_of_small {b : Int} (small : b.natAbs ≤ 1) (n : Nat) : ∃ m : Int64, m.toInt = b ^ n := by
  have : (b ^ n).natAbs ≤ 1 := by
    rw [Int.natAbs_pow]
    exact pow_le_one₀ (Nat.zero_le _) small
  exact ⟨Int64.ofInt (b ^ n), Int64.toInt_ofInt_of_le (by omega) (by omega)⟩

/-- An integer raised to an exponent that is not negative. The bound on exponents only matters to the bases -1,
0 and 1: the powers of the others have left the words long before. -/
theorem raise_integer (base exponent : Int64) (nonneg : 0 ≤ exponent.toInt) :
    raise (.int base) (.int exponent) =
      match int64? (base.toInt ^ exponent.toInt.toNat) with
      | some m => if exponent.toInt < 4294967296 ∨ 2 ≤ base.toInt.natAbs then .ok (.int m) else .error .overflow
      | none => .error .overflow := by
  simp only [raise, if_pos nonneg, raiseInteger, exponentBound, exactPower?_eq]
  by_cases within : exponent.toInt.toNat < 4294967296
  · have : exponent.toInt < 4294967296 := by omega
    cases int64? (base.toInt ^ exponent.toInt.toNat) <;> simp only [if_pos within, this, true_or, if_true]
  · have : ¬ exponent.toInt < 4294967296 := by omega
    simp only [if_neg within, this, false_or]
    by_cases large : 2 ≤ base.toInt.natAbs
    · rw [int64?_pow_of_large large (by omega)]
    · cases int64? (base.toInt ^ exponent.toInt.toNat) <;> simp only [if_neg large]

theorem call_power (base exponent : Value) :
    call power [base, exponent] =
      match raise base exponent with
      | .ok v => pure v
      | .error fault => Run.fail (.builtin power fault) := by
  simp only [call, call.answer]
  cases raise base exponent <;> rfl

/-- A power that fits a word is given, unless the base is -1, 0 or 1 and the exponent out of bounds. -/
theorem call_power_of_fits {base exponent m : Int64} (nonneg : 0 ≤ exponent.toInt)
    (fits : m.toInt = base.toInt ^ exponent.toInt.toNat) :
    call power [.int base, .int exponent] =
      if exponent.toInt < 4294967296 ∨ 2 ≤ base.toInt.natAbs then pure (.int m)
      else Run.fail (.builtin power .overflow) := by
  rw [call_power, raise_integer base exponent nonneg, int64?_eq_some_iff.mpr fits]
  by_cases within : exponent.toInt < 4294967296 ∨ 2 ≤ base.toInt.natAbs
  · simp only [if_pos within]
  · simp only [if_neg within]

theorem call_power_of_exceeds {base exponent : Int64} (nonneg : 0 ≤ exponent.toInt)
    (exceeds : ∀ m : Int64, m.toInt ≠ base.toInt ^ exponent.toInt.toNat) :
    call power [.int base, .int exponent] = Run.fail (.builtin power .overflow) := by
  rw [call_power, raise_integer base exponent nonneg]
  cases h : int64? (base.toInt ^ exponent.toInt.toNat) with
  | none => rfl
  | some m => exact absurd (int64?_eq_some_iff.mp h) (exceeds m)

/-- The built-in function gives the exact power where that fits a word, and says that it overflows only where
it does not. -/
def PowerExact (base exponent : Int64) : Prop :=
  (∀ m : Int64, m.toInt = base.toInt ^ exponent.toInt.toNat →
    call power [.int base, .int exponent] = pure (.int m)) ∧
  ((∀ m : Int64, m.toInt ≠ base.toInt ^ exponent.toInt.toNat) →
    call power [.int base, .int exponent] = Run.fail (.builtin power .overflow))

theorem pure_ne_fail {α : Type} (a : α) (e : RunError) : (pure a : Run α) ≠ Run.fail e := by
  intro same
  have : (Except.ok a, Machine.start) = (Except.error (Halt.failed e), Machine.start) :=
    congrFun same Machine.start
  cases this

/-- Powers are exact but for the bases -1, 0 and 1 with an exponent that 32 bits do not hold. With such an
exponent every power is said to overflow, those of -1, 0 and 1 among them. -/
theorem powerExact_iff (base exponent : Int64) (nonneg : 0 ≤ exponent.toInt) :
    (PowerExact base exponent ↔ exponent.toInt < 4294967296 ∨ 2 ≤ base.toInt.natAbs) ∧
    (4294967296 ≤ exponent.toInt →
      call power [.int base, .int exponent] = Run.fail (.builtin power .overflow)) := by
  refine ⟨⟨?_, ?_⟩, ?_⟩
  · intro ⟨given, _⟩
    by_contra beyond
    obtain ⟨m, fits⟩ := exists_pow_of_small (b := base.toInt) (by omega) exponent.toInt.toNat
    have failed := call_power_of_fits nonneg fits
    rw [if_neg beyond, given m fits] at failed
    exact pure_ne_fail _ _ failed
  · intro within
    refine ⟨?_, call_power_of_exceeds nonneg⟩
    intro m fits
    rw [call_power_of_fits nonneg fits, if_pos within]
  · intro beyond
    by_cases large : 2 ≤ base.toInt.natAbs
    · refine call_power_of_exceeds nonneg ?_
      have none := int64?_pow_of_large large (n := exponent.toInt.toNat) (by omega)
      intro m fits
      rw [int64?_eq_some_iff.mpr fits] at none
      cases none
    · obtain ⟨m, fits⟩ := exists_pow_of_small (b := base.toInt) (by omega) exponent.toInt.toNat
      rw [call_power_of_fits nonneg fits, if_neg (by omega)]

/-- 10 to the 18th is exact, which is the largest power of ten that fits a word. -/
theorem powerExact_ten :
    0 ≤ (18 : Int64).toInt ∧ PowerExact 10 18 :=
  ⟨by decide, (powerExact_iff 10 18 (by decide)).1.mpr (Or.inl (by decide))⟩

/-- 1 to the power of 4294967296 is 1, and is said to overflow. -/
theorem power_of_one_overflows :
    (1 : Int64).toInt = (1 : Int64).toInt ^ (4294967296 : Int64).toInt.toNat ∧
    call power [.int 1, .int 4294967296] = Run.fail (.builtin power .overflow) ∧
    ¬ PowerExact 1 4294967296 := by
  have fits : (1 : Int64).toInt = (1 : Int64).toInt ^ (4294967296 : Int64).toInt.toNat := by
    rw [show (1 : Int64).toInt = 1 from by decide, one_pow]
  have failed := call_power_of_fits (by decide) fits
  rw [if_neg (by decide)] at failed
  refine ⟨fits, failed, ?_⟩
  intro ⟨given, _⟩
  exact pure_ne_fail _ _ ((given 1 fits).symm.trans failed)

end Mensura.Builtin
