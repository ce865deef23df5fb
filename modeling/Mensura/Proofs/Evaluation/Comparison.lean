import Mensura.Evaluation.Operator
import Mensura.Proofs.Numeral.Double

/-!
The order of integers. The operators that order two numbers compare them as floating-point numbers, also where both are
integers, while integers are equal only if they are the same. Main statement: two integers are ordered as they should be
unless they are different and next to the same floating-point number; then each is said to be at most the other one, and
none of less, equal and greater holds.
-/

namespace Mensura

namespace Comparison

/-- The operator that compares in this way. -/
def operator : Comparison → BinaryOp
  | greater => .greater
  | greaterEqual => .greaterEqual
  | less => .less
  | lessEqual => .lessEqual

/-- What a comparison should say of two integers. -/
def ofIntegers : Comparison → Int → Int → Bool
  | greater, m, n => m > n
  | greaterEqual, m, n => m ≥ n
  | less, m, n => m < n
  | lessEqual, m, n => m ≤ n

/-- As floating-point numbers integers are told apart by their first 53 digits only. -/
theorem holds_ofInt (comparison : Comparison) {m n : Int} (hm : m.natAbs < 2 ^ 64) (hn : n.natAbs < 2 ^ 64) :
    comparison.holds (Float.ofInt m) (Float.ofInt n) = comparison.ofIntegers (nearestInt m) (nearestInt n) := by
  cases comparison with
  | greater => exact decide_eq_decide.mpr (ofInt_lt_iff hn hm)
  | greaterEqual => exact decide_eq_decide.mpr (ofInt_le_iff hn hm)
  | less => exact decide_eq_decide.mpr (ofInt_lt_iff hm hn)
  | lessEqual => exact decide_eq_decide.mpr (ofInt_le_iff hm hn)

theorem ofIntegers_congr {m n m' n' : Int} (before : m < n ↔ m' < n') (behind : n < m ↔ n' < m')
    (comparison : Comparison) : comparison.ofIntegers m n = comparison.ofIntegers m' n' := by
  cases comparison with
  | greater => exact decide_eq_decide.mpr behind
  | greaterEqual => exact decide_eq_decide.mpr (by omega)
  | less => exact decide_eq_decide.mpr before
  | lessEqual => exact decide_eq_decide.mpr (by omega)

end Comparison

namespace BinaryOp

variable (position : Position) (l r : Int64)

theorem apply_comparison (comparison : Comparison) :
    comparison.operator.apply position (.int l) (.int r) =
      .ok (.bool (comparison.ofIntegers (nearestInt l.toInt) (nearestInt r.toInt))) := by
  have bounded (n : Int64) : n.toInt.natAbs < 2 ^ 64 := by
    have := n.le_toInt
    have := n.toInt_lt
    omega
  rw [← comparison.holds_ofInt (bounded l) (bounded r)]
  cases comparison <;> rfl

theorem apply_equal : equal.apply position (.int l) (.int r) = .ok (.bool (l == r)) := rfl

/-- Every comparison says of the integers how they are ordered. -/
def OrdersExactly : Prop :=
  ∀ comparison : Comparison, comparison.operator.apply position (.int l) (.int r) =
    .ok (.bool (comparison.ofIntegers l.toInt r.toInt))

/-- The operator says yes to the integers. -/
def Holds (op : BinaryOp) : Prop := op.apply position (.int l) (.int r) = .ok (.bool true)

/-- Exactly one of less, equal and greater holds of the integers. -/
def Trichotomous : Prop :=
  (less.Holds position l r ∧ ¬ equal.Holds position l r ∧ ¬ greater.Holds position l r) ∨
  (¬ less.Holds position l r ∧ equal.Holds position l r ∧ ¬ greater.Holds position l r) ∨
  (¬ less.Holds position l r ∧ ¬ equal.Holds position l r ∧ greater.Holds position l r)

theorem less_holds_iff : less.Holds position l r ↔ nearestInt l.toInt < nearestInt r.toInt := by
  rw [Holds, show less = Comparison.less.operator from rfl, apply_comparison, Except.ok.injEq, Value.bool.injEq]
  exact decide_eq_true_iff

theorem greater_holds_iff : greater.Holds position l r ↔ nearestInt r.toInt < nearestInt l.toInt := by
  rw [Holds, show greater = Comparison.greater.operator from rfl, apply_comparison, Except.ok.injEq, Value.bool.injEq]
  exact decide_eq_true_iff

theorem equal_holds_iff : equal.Holds position l r ↔ l = r := by
  rw [Holds, apply_equal, Except.ok.injEq, Value.bool.injEq, beq_iff_eq]

/-- The integers are the same, or they are told apart as floating-point numbers. -/
def ToldApart : Prop := l = r ∨ nearestInt l.toInt ≠ nearestInt r.toInt

/-- Then, and only then, the order of the floating-point numbers is that of the integers. -/
theorem toldApart_iff : ToldApart l r ↔
    (l.toInt < r.toInt ↔ nearestInt l.toInt < nearestInt r.toInt) ∧
    (r.toInt < l.toInt ↔ nearestInt r.toInt < nearestInt l.toInt) := by
  have forth := nearestInt_mono (m := l.toInt) (n := r.toInt)
  have back := nearestInt_mono (m := r.toInt) (n := l.toInt)
  rw [ToldApart, ← Int64.toInt_inj]
  constructor
  · rintro (same | apart)
    · rw [same]
      exact ⟨by omega, by omega⟩
    · exact ⟨by omega, by omega⟩
  · intro ⟨before, behind⟩
    omega

/-- Two integers are ordered exactly if they are the same or not next to the same floating-point number, and only then
just one of less, equal and greater holds. -/
theorem ordersExactly_iff :
    (OrdersExactly position l r ↔ ToldApart l r) ∧ (Trichotomous position l r ↔ ToldApart l r) := by
  refine ⟨⟨?_, ?_⟩, ?_⟩
  · intro ordered
    have before := (ordered .less).symm.trans (apply_comparison position l r .less)
    have behind := (ordered .greater).symm.trans (apply_comparison position l r .greater)
    rw [Except.ok.injEq, Value.bool.injEq] at before behind
    exact (toldApart_iff l r).mpr ⟨decide_eq_decide.mp before, decide_eq_decide.mp behind⟩
  · intro apart comparison
    obtain ⟨before, behind⟩ := (toldApart_iff l r).mp apart
    rw [apply_comparison, comparison.ofIntegers_congr before behind]
  · rw [Trichotomous, less_holds_iff, greater_holds_iff, equal_holds_iff, ToldApart]
    by_cases same : l = r
    · subst same
      simp only [Int.lt_irrefl, not_false_eq_true, not_true_eq_false, and_true, and_false, true_or, or_true, or_false]
    · simp only [same, not_false_eq_true, true_and, false_and, and_false, false_or]
      omega

/-- The first two integers that are not told apart: none of less, equal and greater holds of them. -/
theorem order_lost :
    (9007199254740992 : Int64).toInt < (9007199254740993 : Int64).toInt ∧
    less.apply .start (.int 9007199254740992) (.int 9007199254740993) = .ok (.bool false) ∧
    ¬ OrdersExactly .start 9007199254740992 9007199254740993 ∧
    ¬ Trichotomous .start 9007199254740992 9007199254740993 := by
  have before : (9007199254740992 : Int64).toInt < (9007199254740993 : Int64).toInt := by decide
  have lost : less.apply .start (.int 9007199254740992) (.int 9007199254740993) = .ok (.bool false) := by decide
  have notEqual : equal.apply .start (.int 9007199254740992) (.int 9007199254740993) = .ok (.bool false) := by decide
  have notGreater : greater.apply .start (.int 9007199254740992) (.int 9007199254740993) = .ok (.bool false) := by
    decide
  refine ⟨before, lost, ?_, ?_⟩
  · intro ordered
    have exact_less := (ordered .less).symm.trans lost
    rw [Except.ok.injEq, Value.bool.injEq] at exact_less
    have not_less : decide ((9007199254740992 : Int64).toInt < (9007199254740993 : Int64).toInt) = false := exact_less
    exact of_decide_eq_false not_less before
  · rw [Trichotomous, Holds, Holds, Holds, lost, notEqual, notGreater]
    simp

end BinaryOp

end Mensura
