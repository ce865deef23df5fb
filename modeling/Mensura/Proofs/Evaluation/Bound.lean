import Mensura.Diagnostic
import Mensura.Proofs.Result

/-!
A bound on calls and rounds does no more than to cut runs off. What a run does within its bound it does within any
larger one, step by step; only a run that has met its bound may go on. Main statement: all bounds that a program
does not meet give it the same outcome, so it is enough to find one of them.
-/

namespace Mensura

/-- From every state, `y` does what `x` does if `x` has not met its bound. -/
def Prolongs {α : Type} (y x : Run α) : Prop :=
  ∀ m, (x.run.run m).1 ≠ .error .exhausted → y.run.run m = x.run.run m

namespace Prolongs

variable {α β : Type} {x y : Run α}

theorem refl : Prolongs x x := fun _ _ => rfl

theorem exhaust : Prolongs y Run.exhaust := fun _ ended => absurd rfl ended

theorem bind {f g : α → Run β} (first : Prolongs y x) (rest : ∀ a, Prolongs (g a) (f a)) :
    Prolongs (y >>= g) (x >>= f) := by
  intro m ended
  have same := first m
  rw [run_bind] at ended
  rw [run_bind, run_bind]
  generalize x.run.run m = r at ended same ⊢
  obtain ⟨h | a, t⟩ := r
  · have stopped : h ≠ .exhausted := fun met => ended (congrArg Except.error met)
    rw [same fun met => stopped (Except.error.inj met)]
  · rw [same nofun]
    exact rest a t ended

theorem branch {c d : Run Bool} {x' y' : Run α} (condition : Prolongs d c) (yes : Prolongs y x)
    (no : Prolongs y' x') : Prolongs (do if ← d then y else y') (do if ← c then x else x') := by
  apply bind condition
  intro b
  cases b with
  | true => exact yes
  | false => exact no

/-- Both runs may be started from elsewhere, and the state may be put in order afterwards. -/
theorem around {x' y' : Run α} {enter leave : Machine → Machine}
    (run : ∀ m, x'.run.run m = (x.run.run (enter m)).map id leave)
    (run' : ∀ m, y'.run.run m = (y.run.run (enter m)).map id leave) (h : Prolongs y x) : Prolongs y' x' := by
  intro m ended
  rw [run] at ended
  have same : y.run.run (enter m) = x.run.run (enter m) := h (enter m) ended
  rw [run, run', same]

theorem inBlock (h : Prolongs y x) : Prolongs (Run.inBlock y) (Run.inBlock x) :=
  h.around (Run.run_inBlock x) (Run.run_inBlock y)

theorem inCall {parameters : Scope Value} (h : Prolongs y x) :
    Prolongs (Run.inCall parameters y) (Run.inCall parameters x) :=
  h.around (Run.run_inCall parameters x) (Run.run_inCall parameters y)

/-- A loop may go more rounds. -/
theorem repeatWhile {condition condition' : Run Bool} {body body' : Run Flow} (first : Prolongs condition' condition)
    (next : Prolongs body' body) {rounds more : Nat} (le : rounds ≤ more) :
    Prolongs (Run.repeatWhile condition' body' more) (Run.repeatWhile condition body rounds) := by
  induction rounds generalizing more with
  | zero => exact exhaust
  | succ rounds ih =>
    obtain ⟨more, rfl⟩ : ∃ k, more = k + 1 := ⟨more - 1, by omega⟩
    apply branch first
    · apply bind next
      intro flow
      cases flow with
      | normal => exact ih (by omega)
      | returned v => exact refl
    · exact refl

end Prolongs

/-- Calls that go on where others have met their bound. -/
def Invocation.Prolongs (invoke' invoke : Invocation) : Prop :=
  ∀ f args, Mensura.Prolongs (invoke' f args) (invoke f args)

section
variable {p : Program} {invoke invoke' : Invocation}

theorem Program.call_prolongs (calls : invoke'.Prolongs invoke) (callee : Symbol) (args : List Value) :
    Prolongs (p.call invoke' callee args) (p.call invoke callee args) := by
  unfold call
  cases Builtin.ofName? callee.name with
  | some builtin => exact .refl
  | none =>
    cases p.function? callee.name with
    | some f => exact calls f args
    | none => exact .refl

mutual

theorem Expr.evaluate_prolongs (calls : invoke'.Prolongs invoke) (e : Expr) :
    Prolongs (e.evaluate p invoke') (e.evaluate p invoke) := by
  cases e with
  | literal value position => exact .refl
  | var name => exact .refl
  | unary op position operand =>
    simp only [Expr.evaluate]
    exact .bind (Expr.evaluate_prolongs calls operand) fun _ => .refl
  | binary left op position right =>
    simp only [Expr.evaluate]
    apply Prolongs.bind (Expr.evaluate_prolongs calls left)
    intro l
    exact .bind (Expr.evaluate_prolongs calls right) fun _ => .refl
  | call callee args =>
    simp only [Expr.evaluate]
    exact .bind (Expr.evaluateAll_prolongs calls args) fun vs => Program.call_prolongs calls callee vs

theorem Expr.evaluateAll_prolongs (calls : invoke'.Prolongs invoke) (es : List Expr) :
    Prolongs (Expr.evaluateAll p invoke' es) (Expr.evaluateAll p invoke es) := by
  cases es with
  | nil => exact .refl
  | cons e es =>
    simp only [Expr.evaluateAll]
    apply Prolongs.bind (Expr.evaluate_prolongs calls e)
    intro v
    exact .bind (Expr.evaluateAll_prolongs calls es) fun _ => .refl

end

theorem Expr.holds_prolongs (calls : invoke'.Prolongs invoke) (condition : Expr) :
    Prolongs (condition.holds p invoke') (condition.holds p invoke) :=
  .bind (Expr.evaluate_prolongs calls condition) fun _ => .refl

mutual

theorem Stmt.execute_prolongs (calls : invoke'.Prolongs invoke) {rounds more : Nat} (le : rounds ≤ more) (s : Stmt) :
    Prolongs (s.execute p invoke' more) (s.execute p invoke rounds) := by
  cases s with
  | declare name type value | assign name value =>
    simp only [Stmt.execute]
    exact .bind (Expr.evaluate_prolongs calls value) fun _ => .refl
  | ifElse condition body otherwise =>
    simp only [Stmt.execute]
    exact .branch (Expr.holds_prolongs calls condition) (.inBlock (Stmt.executeAll_prolongs calls le body))
      (Else.execute_prolongs calls le otherwise)
  | loop condition body =>
    simp only [Stmt.execute]
    exact .repeatWhile (Expr.holds_prolongs calls condition) (.inBlock (Stmt.executeAll_prolongs calls le body)) le
  | ret position value =>
    cases value with
    | some e =>
      simp only [Stmt.execute]
      exact .bind (Expr.evaluate_prolongs calls e) fun _ => .refl
    | none => exact .refl
  | call callee args =>
    simp only [Stmt.execute]
    exact .bind (Expr.evaluate_prolongs calls (.call callee args)) fun _ => .refl
  | block body =>
    simp only [Stmt.execute]
    exact .inBlock (Stmt.executeAll_prolongs calls le body)

theorem Stmt.executeAll_prolongs (calls : invoke'.Prolongs invoke) {rounds more : Nat} (le : rounds ≤ more)
    (ss : List Stmt) : Prolongs (Stmt.executeAll p invoke' more ss) (Stmt.executeAll p invoke rounds ss) := by
  cases ss with
  | nil => exact .refl
  | cons s ss =>
    simp only [Stmt.executeAll]
    apply Prolongs.bind (Stmt.execute_prolongs calls le s)
    intro flow
    cases flow with
    | normal => exact Stmt.executeAll_prolongs calls le ss
    | returned v => exact .refl

theorem Else.execute_prolongs (calls : invoke'.Prolongs invoke) {rounds more : Nat} (le : rounds ≤ more) (o : Else) :
    Prolongs (o.execute p invoke' more) (o.execute p invoke rounds) := by
  cases o with
  | none => exact .refl
  | last body =>
    simp only [Else.execute]
    exact .inBlock (Stmt.executeAll_prolongs calls le body)
  | elseIf condition body otherwise =>
    simp only [Else.execute]
    exact .branch (Expr.holds_prolongs calls condition) (.inBlock (Stmt.executeAll_prolongs calls le body))
      (Else.execute_prolongs calls le otherwise)

end

end

namespace Program

variable {p : Program} {bound more : Nat}

theorem invoke_prolongs (le : bound ≤ more) : (p.invoke more).Prolongs (p.invoke bound) := by
  induction bound generalizing more with
  | zero => exact fun _ _ => .exhaust
  | succ bound ih =>
    obtain ⟨more, rfl⟩ : ∃ k, more = k + 1 := ⟨more - 1, by omega⟩
    intro f args
    simp only [invoke]
    have less : bound ≤ more := Nat.le_of_succ_le_succ le
    have body := Stmt.executeAll_prolongs (p := p) (ih less) less f.body
    split
    · exact .refl
    · exact .bind (.inCall body) fun _ => .refl

theorem run_prolongs (le : bound ≤ more) : Prolongs (p.run more) (p.run bound) := by
  have calls := p.invoke_prolongs le
  unfold run
  apply Prolongs.bind (Stmt.executeAll_prolongs calls le p.statements)
  intro flow
  cases flow with
  | returned v => exact .refl
  | normal =>
    cases p.function? "main" with
    | none => exact .refl
    | some main => exact .bind (calls main []) fun _ => .refl

/-- A run that has not met its bound is all there is to it. -/
theorem outcome_of_le (ended : (p.outcome bound).ending ≠ .error .exhausted) (le : bound ≤ more) :
    p.outcome more = p.outcome bound := by
  have same : (p.run more).run.run .start = (p.run bound).run.run .start := run_prolongs le .start ended
  unfold outcome
  rw [same]

/-- What a program does is one thing, whichever bound has been enough to find it out. -/
theorem outcome_unique {b c : Nat} (hb : (p.outcome b).ending ≠ .error .exhausted)
    (hc : (p.outcome c).ending ≠ .error .exhausted) : p.outcome b = p.outcome c := by
  obtain le | le := Nat.le_total b c
  · exact (outcome_of_le hb le).symm
  · exact outcome_of_le hc le

end Program

end Mensura
