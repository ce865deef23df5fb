import Mensura.Builtin.Signature
import Mensura.Proofs.Evaluation.Integer
import Mensura.Proofs.Program.Expressions

/-!
Exponents that are written out. Checking a power multiplies its unit by the integer that the exponent writes out under
minus signs, before anything is worked out. When the program runs, a sign that overflows is an error, so the exponent
is that integer only if none does. Main statement: wherever in a program that is read from a text an expression writes
out an integer, no sign in it overflows, as no literal is negative, and the integer is its value in every state.
-/

namespace Mensura

/-- Every word but the least has its opposite among the words. -/
theorem toInt_neg_of_lt {n : Int64} (above : -9223372036854775808 < n.toInt) : (-n).toInt = -n.toInt := by
  have := n.toInt_lt
  rw [Int64.toInt_neg, Int.bmod_eq_of_le (by omega) (by omega)]

theorem neg_eq_of_int64? {m n : Int64} (fits : int64? (-m.toInt) = some n) : -m = n := by
  rw [← Int64.toInt_inj, Int64.toInt_neg, ← int64?_eq_some_iff.mp fits, Int64.toInt_bmod]

namespace Expr

/-- The integer that an expression writes out when nothing is done about an overflow, so that the opposite of the least
word is that word again. -/
def wrapped? : Expr → Option Int64
  | .literal (.int n _) _ => some n
  | .unary .minus _ operand => operand.wrapped?.map fun n => -n
  | _ => none

theorem wrapped?_of_integer? : {e : Expr} → {n : Int64} → e.integer? = some n → e.wrapped? = some n
  | .literal (.int _ _) _, _, written => written
  | .unary .minus _ operand, _, written => by
    cases found : operand.integer? with
    | none => simp only [integer?, found, reduceCtorEq] at written
    | some m =>
      simp only [integer?, found] at written
      rw [wrapped?, wrapped?_of_integer? found, Option.map_some, neg_eq_of_int64? written]

/-- An integer that is not negative, under any number of minus signs. -/
inductive Signs : Expr → Int64 → Prop where
  | literal {n : Int64} (unit : Option UnitExpr) (position : Position) (nonneg : 0 ≤ n.toInt) :
      Signs (.literal (.int n unit) position) n
  | minus {operand : Expr} {n : Int64} (position : Position) (inner : Signs operand n) :
      Signs (.unary .minus position operand) (-n)

theorem signs_of_wrapped? {e : Expr} {n : Int64}
    (nonneg : ∀ m unit position, .literal (.int m unit) position ∈ e.parts → 0 ≤ m.toInt)
    (written : e.wrapped? = some n) : e.Signs n := by
  fun_induction wrapped? e generalizing n with
  | case1 m unit position =>
    cases written
    exact .literal unit position (nonneg _ unit position List.mem_cons_self)
  | case2 position operand ih =>
    obtain ⟨m, inner, rfl⟩ := Option.map_eq_some_iff.mp written
    exact .minus position (ih (fun k unit place mem => nonneg k unit place (List.mem_cons_of_mem _ mem)) inner)
  | case3 => cases written

namespace Signs

variable {e : Expr} {n : Int64}

/-- The literal at the end has an opposite, and so the least word is never reached. -/
theorem above_least (h : e.Signs n) : -9223372036854775808 < n.toInt := by
  induction h with
  | literal unit position nonneg => omega
  | @minus operand n position inner ih =>
    have := n.toInt_lt
    rw [toInt_neg_of_lt ih]
    omega

theorem integer?_eq (h : e.Signs n) : e.integer? = some n := by
  induction h with
  | literal => rfl
  | minus position inner ih =>
    rw [integer?, ih]
    exact int64?_eq_some_iff.mpr (toInt_neg_of_lt inner.above_least)

theorem isInteger (h : e.Signs n) : e.IsInteger := by
  induction h with
  | literal unit position => exact .literal _ unit position
  | minus position inner ih => exact .minus position ih

theorem ideal?_eq (h : e.Signs n) : e.ideal? = some n.toInt := by
  induction h with
  | literal => rfl
  | minus position inner ih => rw [ideal?, ih, Option.map_some, toInt_neg_of_lt inner.above_least]

theorem fits (h : e.Signs n) : ∀ d ∈ e.subexpressions, d.Fits := by
  induction h with
  | literal unit position nonneg => exact List.forall_mem_singleton.mpr (fits_of_exact rfl)
  | minus position inner ih =>
    have outer := fits_of_exact (inner.minus position).ideal?_eq
    exact List.forall_mem_append.mpr ⟨ih, List.forall_mem_singleton.mpr outer⟩

/-- As nothing in it overflows, the value of the expression is its exact value. -/
theorem evaluate_eq (h : e.Signs n) (p : Program) (invoke : Invocation) : e.evaluate p invoke = pure (.int n) := by
  obtain ⟨result, settled, run⟩ := h.isInteger.settles p invoke
  cases settled with
  | @value m fit exact =>
    have same : m = n := Int64.toInt_inj.mp (Option.some.inj (exact.symm.trans h.ideal?_eq))
    rw [run, same]
    rfl
  | @fault before behind d error split fit offends =>
    have within : d ∈ e.subexpressions := by simp [split]
    exact absurd (h.fits d within) offends.not_fits

end Signs

end Expr

namespace Program

/-- Wherever it stands in a program that is read from a text, an expression writes out the same integer whether or not
overflows are looked for, or it writes out none. If it writes out an integer, then no sign in it overflows and that is
its exact value. In every state, and within every bound, it is then worked out to that integer: it cannot fail, and it
prints and changes nothing. -/
theorem evaluate_exponent {limits : Limits} {text : String} {p : Program} (read : ofText limits text = .ok p)
    {e : Expr} (mem : e ∈ p.expressions) :
    e.integer? = e.wrapped? ∧ ∀ n, e.integer? = some n →
      (∀ d ∈ e.subexpressions, d.Fits) ∧ e.ideal? = some n.toInt ∧
        ∀ (q : Program) (bound : Nat) (m : Machine), (q.evaluate bound e).run.run m = (.ok (.int n), m) := by
  have signs (n : Int64) (written : e.wrapped? = some n) : e.Signs n := by
    refine Expr.signs_of_wrapped? (fun m unit position part => ?_) written
    exact (int_mem_bounds read (p.complete_expressions e mem part)).1
  have same : e.integer? = e.wrapped? :=
    Option.ext fun n => ⟨Expr.wrapped?_of_integer?, fun written => (signs n written).integer?_eq⟩
  refine ⟨same, fun n written => ?_⟩
  have h := signs n (same ▸ written)
  refine ⟨h.fits, h.ideal?_eq, fun q bound m => ?_⟩
  rw [Program.evaluate, h.evaluate_eq]
  rfl

/-- A power with an exponent under three signs, and the integers with the largest magnitude. -/
def signed : String :=
  "let x: [m^-3] = power(2 [m], -(-(-3)))
print(-(-(-9223372036854775807)))"

theorem evaluate_exponent_signed : ∃ p, ofText {} signed = .ok p ∧
    (∃ e ∈ p.expressions, e.integer? = some (-3) ∧
      (p.evaluate 0 e).run.run .start = (.ok (.int (-3)), .start)) ∧
    ∃ e ∈ p.expressions, e.integer? = some (-9223372036854775807) ∧
      (p.evaluate 0 e).run.run .start = (.ok (.int (-9223372036854775807)), .start) := by
  have written : (ofText {} signed).toOption.map (fun p => p.expressions.filterMap Expr.integer?) =
      some [2, -3, 3, -3, 3, -9223372036854775807, 9223372036854775807, -9223372036854775807, 9223372036854775807] := by
    decide +kernel
  obtain ⟨p, read, written⟩ := Option.map_eq_some_iff.mp written
  have read := toOption_eq_some.mp read
  have evaluated (n : Int64) (listed : n ∈ p.expressions.filterMap Expr.integer?) :
      ∃ e ∈ p.expressions, e.integer? = some n ∧ (p.evaluate 0 e).run.run .start = (.ok (.int n), .start) := by
    obtain ⟨e, mem, integer⟩ := List.mem_filterMap.mp listed
    exact ⟨e, mem, integer, ((evaluate_exponent read mem).2 n integer).2.2 p 0 .start⟩
  rw [written] at evaluated
  exact ⟨p, read, evaluated _ (by decide), evaluated _ (by decide)⟩

end Program

end Mensura
