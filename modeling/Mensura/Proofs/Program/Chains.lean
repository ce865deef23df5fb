import Mathlib.Logic.Relation
import Mensura.Diagnostic
import Mensura.Proofs.Evaluation.Overlooked
import Mensura.Proofs.Typing.Places
import Mensura.Proofs.Typing.Rewriting

/-!
Choices with several conditions. A further branch of an `if` is an `if` in its last branch: the scope that this opens
around the later conditions and branches stays empty, and nothing in them finds out about it. Main statement: a program
with such a chain anywhere is checked and runs as it does with the rest of the chain inside a last branch.
-/

namespace Mensura

/-- The branches behind the first one, of which there is one at least, are put into a last branch. -/
inductive Stmt.Nests : List Stmt → List Stmt → Prop where
  | chain (condition : Expr) (body : List Stmt) (next : Expr) (following : List Stmt) (otherwise : Else)
      (rest : List Stmt) :
      Stmt.Nests (.ifElse condition body (.elseIf next following otherwise) :: rest)
        (.ifElse condition body (.last [.ifElse next following otherwise]) :: rest)

namespace Stmt.Nests

variable {ss ss' : List Stmt}

theorem allCheckAs (h : Stmt.Nests ss ss') : Stmt.AllCheckAs ss' ss := by
  cases h with
  | chain =>
    intro p
    rw [Stmt.checkAll, Stmt.checkAll, Stmt.check, Stmt.check, Else.check_nested]

theorem allRunAs (h : Stmt.Nests ss ss') : Stmt.AllRunAs ss' ss := by
  cases h with
  | chain =>
    intro p bound rounds
    rw [Stmt.executeAll, Stmt.executeAll, Stmt.execute, Stmt.execute, Else.execute_nested]

end Stmt.Nests

namespace Program

/-- Chains of conditions, of any length and with or without a last branch, mean that each condition is asked inside the
last branch of the one before. Wherever in a program and however often this is written out, the check goes as before
from every state, to the same error if there is one. Within every bound the program runs as before from every state,
and every expression has the same value in it: what is printed, what the names stand for, and how it ends. -/
theorem nested_chains {p q : Program} (nested : Relation.ReflTransGen (Rewrites Stmt.Nests) p q) :
    q.check = p.check ∧ ∀ bound, q.run bound = p.run bound ∧ ∀ e, q.evaluate bound e = p.evaluate bound e := by
  induction nested with
  | refl => exact ⟨rfl, fun bound => ⟨rfl, fun e => rfl⟩⟩
  | tail _ rewritten ih =>
    obtain ⟨checked, runs⟩ := ih
    have step := rewritten.check fun _ _ h => h.allCheckAs
    have alike := rewritten.runsAs fun _ _ h => h.allRunAs
    constructor
    · exact step.trans checked
    · intro bound
      obtain ⟨ran, evaluated⟩ := runs bound
      exact ⟨(alike.run bound).trans ran, fun e => (alike.evaluate bound e).trans (evaluated e)⟩

/-- Asks whether ten divided by `n` is a number. -/
def tenOver (number : Int64) : Expr :=
  .binary (.binary (.literal (.int 10 none) .start) .slash .start (.var ⟨"n", .start⟩)) .equal .start
    (.literal (.int number none) .start)

/-- A function that is called with different `n`. It returns `n`, unless what stands behind its first branch returns
something else or changes `n`. -/
def choosing (otherwise : Else) : Program :=
  let n : Symbol := ⟨"n", .start⟩
  let number (i : Int64) : Expr := .literal (.int i none) .start
  let shown (i : Int64) : Stmt := .call ⟨"print", .start⟩ [.call ⟨"choose", .start⟩ [number i]]
  { functions := [⟨⟨"choose", .start⟩, [⟨n, .quantity .dimensionless⟩], .quantity .dimensionless,
      [.ifElse (.binary (.var n) .equal .start (number 5)) [] otherwise, .ret .start (some (.var n))]⟩]
    units := []
    statements := [shown 5, shown 2, shown 1, shown 4, shown 0] }

/-- The second branch returns, the third one declares a name and assigns another one from outside, and no condition can
be worked out for the last of the calls. -/
theorem nested_chains_choosing :
    let n : Symbol := ⟨"n", .start⟩
    let k : Symbol := ⟨"k", .start⟩
    let second : List Stmt := [.ret .start (some (.literal (.int 7 none) .start))]
    let third : List Stmt := [.declare k (.quantity .dimensionless) (.var n),
      .assign n (.binary (.var k) .plus .start (.literal (.int 10 none) .start))]
    let p := choosing (.elseIf (tenOver 5) second (.elseIf (tenOver 10) third .none))
    let q := choosing (.last [.ifElse (tenOver 5) second (.last [.ifElse (tenOver 10) third .none])])
    Relation.ReflTransGen (Rewrites Stmt.Nests) p q ∧ q.checked = .ok () ∧
      (q.outcome 3).printed = ["5", "7", "11", "4"] ∧
      (q.outcome 3).ending = .error (.failed (.divisionByZero .start)) := by
  intro n k second third p q
  let between := choosing (.last [.ifElse (tenOver 5) second (.elseIf (tenOver 10) third .none)])
  have outer : p.Rewrites Stmt.Nests between := @Rewrites.body _ [] _ _ _ _ _ (.here (Stmt.Nests.chain ..))
  have inner : between.Rewrites Stmt.Nests q :=
    @Rewrites.body _ [] _ _ _ _ _ (.first (.otherwise (.last (.here (Stmt.Nests.chain ..)))))
  have nested : Relation.ReflTransGen (Rewrites Stmt.Nests) p q := .tail (.single outer) inner
  obtain ⟨check, runs⟩ := nested_chains nested
  have checked : q.checked = p.checked := by
    rw [Program.checked, check]
    rfl
  have accepted : p.checked = .ok () := by
    rw [checked_iff_accepted]
    exact ⟨by decide +kernel, by decide +kernel, by decide +kernel, by decide +kernel⟩
  have outcome : q.outcome 3 = p.outcome 3 := by
    rw [Program.outcome, (runs 3).1]
    rfl
  rw [checked, outcome]
  exact ⟨nested, accepted, by decide +kernel, by decide +kernel⟩

end Program

end Mensura
