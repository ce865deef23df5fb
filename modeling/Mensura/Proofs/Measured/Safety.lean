import Mensura.Proofs.Measured.Soundness
import Mensura.Proofs.Measured.Tracking

/-!
What checking promises about runs. Main statements: a program that is accepted runs with dimensions as it does
without, and is never a misfit; and a program that is read from a text and accepted fails only where that depends
on values, by a division by zero, by an integer out of range or by a function that comes to its end without a
value.
-/

namespace Mensura

variable {p : Program}

theorem Program.measuredOutcome_ends (typed : p.WellTyped) (bound : Nat) :
    Ends (fun h => Tolerable h ∨
        h = .halted (.failed (.unchecked .returnOutsideFunction)) ∧ Stmt.anyReturns p.statements = true)
      (fun _ => True) (p.measuredOutcome bound).ending := by
  have run := runMeasured_within typed bound
  have outcome : (p.measuredOutcome bound).ending = ((p.runMeasured bound).run.run .start).1 := rfl
  rw [outcome]
  unfold Within at run
  generalize (p.runMeasured bound).run.run .start = r at run ⊢
  obtain ⟨_ | _, _⟩ := r <;> exact run

theorem Program.measuredOutcome_ne_misfit (typed : p.WellTyped) (bound : Nat) :
    (p.measuredOutcome bound).ending ≠ .error .misfit := by
  intro misfit
  have ends := measuredOutcome_ends typed bound
  rw [misfit] at ends
  obtain impossible | ⟨impossible, -⟩ := ends
  · exact impossible
  · cases impossible

/-- The dimensions of an accepted program work out. With the vectors that values carry at run time, no sum,
comparison, root, power, declaration, assignment, call or return ever meets one that does not fit, and apart
from the vectors the run is the same: it ends in the same way and prints the same. -/
theorem Program.measuredOutcome_of_checked (accepted : p.checked = .ok ()) (bound : Nat) :
    (p.measuredOutcome bound).ending ≠ .error .misfit ∧
      (p.measuredOutcome bound).ending = (p.outcome bound).ending.mapError .halted ∧
      (p.measuredOutcome bound).printed = (p.outcome bound).printed := by
  have fits := measuredOutcome_ne_misfit (wellTyped_of_checked accepted) bound
  exact ⟨fits, measuredOutcome_eq bound fits⟩

/-- The side of a square, grown by a power of a number without a unit. -/
def growingSide : Program :=
  let named name : Symbol := ⟨name, 1, 1⟩
  let metre : UnitExpr := .ofName "m"
  let length n : Expr := .literal (.int n (some metre)) ⟨1, 1⟩
  { functions := [⟨named "side", [⟨named "area", .quantity ⟨[⟨"m", 2⟩]⟩⟩], .quantity metre,
      [.ret ⟨1, 1⟩ (some (.call (named "sqrt") [.var (named "area")]))]⟩]
    units := []
    statements := [
      .declare (named "area") (.quantity ⟨[⟨"m", 2⟩]⟩) (.call (named "power") [length 3, .literal (.int 2 none) ⟨1, 1⟩]),
      .call (named "print") [.binary (.call (named "side") [.var (named "area")]) .plus ⟨1, 1⟩ (length 1)]] }

theorem measuredOutcome_growingSide :
    growingSide.checked = .ok () ∧ (growingSide.measuredOutcome 2).ending ≠ .error .misfit ∧
      (growingSide.measuredOutcome 2).ending = (growingSide.outcome 2).ending.mapError .halted ∧
      (growingSide.measuredOutcome 2).printed = (growingSide.outcome 2).printed := by
  have accepted : growingSide.checked = .ok () := by decide +kernel
  exact ⟨accepted, Program.measuredOutcome_of_checked accepted 2⟩

/-- A program that has been read and checked meets no undefined name, no operand of a wrong sort and no call with
wrong arguments. It fails only by what its values are. -/
theorem Program.dependsOnValues_of_accepted {limits : Limits} {text : String}
    (accepted : Program.accept limits text = .ok p) (bound : Nat) {error : RunError}
    (failed : (p.outcome bound).ending = .error (.failed error)) : error.DependsOnValues := by
  obtain ⟨q, read, h⟩ := bind_eq_ok.mp accepted
  obtain ⟨_, checked, h⟩ := bind_eq_ok.mp h
  cases h
  have typed := wellTyped_of_checked (mapError_eq_ok.mp checked)
  have ends := measuredOutcome_ends typed bound
  rw [(measuredOutcome_eq bound (measuredOutcome_ne_misfit typed bound)).1, failed] at ends
  obtain tolerable | ⟨-, returns⟩ := ends
  · exact tolerable
  · rw [anyReturns_of_ofText (mapError_eq_ok.mp read)] at returns
    cases returns

theorem dependsOnValues_of_division : ∃ p, Program.accept {} "print(1 / 0)" = .ok p ∧
    (p.outcome 1).ending = .error (.failed (.divisionByZero ⟨1, 9⟩)) ∧
    RunError.DependsOnValues (.divisionByZero ⟨1, 9⟩) := by
  have run : ((Program.accept {} "print(1 / 0)").toOption.map fun p => (p.outcome 1).ending) =
      some (.error (.failed (.divisionByZero ⟨1, 9⟩))) := by decide +kernel
  obtain ⟨p, accepted, failed⟩ := Option.map_eq_some_iff.mp run
  have accepted := toOption_eq_some.mp accepted
  exact ⟨p, accepted, failed, Program.dependsOnValues_of_accepted accepted 1 failed⟩

end Mensura
