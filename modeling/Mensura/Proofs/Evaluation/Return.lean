import Mensura.Diagnostic
import Mensura.Proofs.Evaluation.Rewriting
import Mensura.Proofs.Result

/-!
A `return` leaves its function at once, out of every block, branch and loop around it. Main statement: what stands
behind a `return` can be dropped from a program, wherever that is, without a trace in any of its runs.
-/

namespace Mensura

/-- What stands behind a `return` is dropped. -/
inductive Stmt.Drops : List Stmt → List Stmt → Prop where
  | behind (position : Position) (value : Option Expr) (dead : List Stmt) :
      Stmt.Drops (.ret position value :: dead) [.ret position value]

section
variable (p : Program) (invoke : Invocation) (rounds : Nat) (position : Position)

/-- Statements never go on behind a `return`: it fails or it ends them all. -/
theorem Stmt.executeAll_ret (value : Option Expr) (dead : List Stmt) :
    Stmt.executeAll p invoke rounds (.ret position value :: dead) =
      Stmt.execute p invoke rounds (.ret position value) := by
  rw [Stmt.executeAll]
  cases value with
  | none =>
    rw [Stmt.execute]
    exact pure_bind ..
  | some e =>
    rw [Stmt.execute, bind_assoc]
    congr 1

end

theorem Stmt.Drops.allRunAs {ss ss' : List Stmt} (h : Stmt.Drops ss ss') : Stmt.AllRunAs ss' ss := by
  cases h with
  | behind position value dead =>
    intro p bound rounds
    rw [Stmt.executeAll_ret, Stmt.executeAll_ret]

namespace Program

/-- What stands behind a `return` is dropped somewhere in the program. From every state and within every bound the
program runs as before, and every expression has the same value in it: what is printed, what the names stand for, the
error if there is one, and whether the bound is met. -/
theorem run_of_drops {p q : Program} (dropped : p.Rewrites Stmt.Drops q) (bound : Nat) :
    q.run bound = p.run bound ∧ ∀ e, q.evaluate bound e = p.evaluate bound e := by
  have alike : q.RunsAs p := dropped.runsAs fun _ _ drops => drops.allRunAs
  exact ⟨alike.run bound, alike.evaluate bound⟩

/-- A function that calls itself. It returns out of a branch in a block in a loop without an end, and something else
may stand behind that `return`. -/
def leaving (dead : List Stmt) : Program :=
  let n : Symbol := ⟨"n", .start⟩
  let number (k : Int64) : Expr := .literal (.int k none) .start
  let here (e : Expr) : Expr := .call ⟨"leave", .start⟩ [e]
  let shown (e : Expr) : Stmt := .call ⟨"print", .start⟩ [e]
  { functions := [⟨⟨"leave", .start⟩, [⟨n, .quantity .dimensionless⟩], .quantity .dimensionless,
      [.ifElse (.binary (.var n) .equal .start (number 0)) [.ret .start (some (number 7))] .none,
        .loop (.literal (.bool true) .start)
          [.block [.ifElse (.literal (.bool false) .start) []
            (.elseIf (.literal (.bool true) .start)
              (shown (.var n) :: .ret .start (some (here (.binary (.var n) .minus .start (number 1)))) :: dead)
              .none)],
          shown (number 9)]]⟩]
    units := []
    statements := [shown (here (number 2))] }

theorem run_of_drops_leaving :
    let dead : List Stmt := [.assign ⟨"n", .start⟩ (.var ⟨"unknown", .start⟩)]
    (leaving dead).Rewrites Stmt.Drops (leaving []) ∧
      ((leaving dead).outcome 5).printed = ["2", "1", "7"] ∧ ((leaving dead).outcome 5).ending = .ok () := by
  intro dead
  have dropped : (leaving dead).Rewrites Stmt.Drops (leaving []) :=
    @Rewrites.body _ [] _ _ _ _ _ (.later (.first (.loop (.first (.block (.first (.otherwise (.body
      (.later (.here (.behind ..)))))))))))
  have same : (leaving []).run 5 = (leaving dead).run 5 := (run_of_drops dropped 5).1
  have outcome : (leaving dead).outcome 5 = (leaving []).outcome 5 := by
    unfold Program.outcome
    rw [same]
  rw [outcome]
  exact ⟨dropped, by decide +kernel, by decide +kernel⟩

end Program

end Mensura
