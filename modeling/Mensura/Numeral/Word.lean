/-!
Integers that fit a machine word. Arithmetic on words is done over the integers and then narrowed, so that a
result is either exact or missing and never wraps.
-/

namespace Mensura

/-- The 64-bit word with the given value, if there is one. -/
def int64? (n : Int) : Option Int64 :=
  if -9223372036854775808 ≤ n ∧ n < 9223372036854775808 then some (Int64.ofInt n) else none

/-- The 32-bit word with the given value, if there is one. -/
def int32? (n : Int) : Option Int32 :=
  if -2147483648 ≤ n ∧ n < 2147483648 then some (Int32.ofInt n) else none

theorem int64?_eq_some_iff {n : Int} {w : Int64} : int64? n = some w ↔ w.toInt = n := by
  unfold int64?
  constructor
  · intro h
    split at h
    · cases h
      exact Int64.toInt_ofInt_of_le (by omega) (by omega)
    · cases h
  · rintro rfl
    have := w.le_toInt
    have := w.toInt_lt
    rw [if_pos ⟨by omega, by omega⟩, Int64.ofInt_toInt]

theorem int32?_eq_some_iff {n : Int} {w : Int32} : int32? n = some w ↔ w.toInt = n := by
  unfold int32?
  constructor
  · intro h
    split at h
    · cases h
      exact Int32.toInt_ofInt_of_le (by omega) (by omega)
    · cases h
  · rintro rfl
    have := w.le_toInt
    have := w.toInt_lt
    rw [if_pos ⟨by omega, by omega⟩, Int32.ofInt_toInt]

theorem int64?_eq_none_iff {n : Int} :
    int64? n = none ↔ n < -9223372036854775808 ∨ 9223372036854775808 ≤ n := by
  unfold int64?
  split <;> simp <;> omega

theorem int32?_eq_none_iff {n : Int} : int32? n = none ↔ n < -2147483648 ∨ 2147483648 ≤ n := by
  unfold int32?
  split <;> simp <;> omega

end Mensura
