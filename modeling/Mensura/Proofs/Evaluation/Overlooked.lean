import Mensura.Proofs.Evaluation.Frame
import Mensura.Proofs.Scope.Gap

/-!
Runs overlook empty scopes. From states in which the same has been printed and every name means the same, an expression
has the same value; from states whose present contexts differ in an empty scope, statements do the same, and come to
states that differ in it. Main statement: what stands behind the first branch of an `if` does the same in a block of its
own, wherever it is run.
-/

namespace Mensura

/-- The same has been printed in both states, and their present contexts are related. -/
structure Machine.Near (N : Context Value → Context Value → Prop) (m t : Machine) : Prop where
  printed : t.output = m.output
  present : N m.stack.current t.stack.current

/-- From states that are near each other the run ends in the same way, and in states that are near each other. -/
def Run.Overlooks {α : Type} (N : Context Value → Context Value → Prop) (x : Run α) : Prop :=
  Echoes (Machine.Near N) id x x

namespace Run.Overlooks

variable {α β : Type} {N : Context Value → Context Value → Prop} {x y : Run α}

theorem pure (a : α) : Overlooks N (Pure.pure a) := Echoes.pure a

theorem fail (error : RunError) : Overlooks N (Run.fail error : Run α) := Echoes.throw _

theorem exhaust : Overlooks N (Run.exhaust : Run α) := Echoes.throw _

theorem bind {f : α → Run β} (first : Overlooks N x) (rest : ∀ a, Overlooks N (f a)) : Overlooks N (x >>= f) :=
  Echoes.bind first rest

theorem ofExcept (result : Except RunError α) : Overlooks N (Run.ofExcept result) := by
  cases result with
  | ok a => exact pure a
  | error e => exact fail e

theorem branch {condition : Run Bool} (first : Overlooks N condition) (yes : Overlooks N x) (no : Overlooks N y) :
    Overlooks N (do if ← condition then x else y) := Echoes.branch first yes no

theorem repeatWhile {condition : Run Bool} {body : Run Flow} (first : Overlooks N condition)
    (next : Overlooks N body) (rounds : Nat) : Overlooks N (Run.repeatWhile condition body rounds) :=
  Run.repeatWhile_related (R := Echoes (Machine.Near N) id) Echoes.pure exhaust Echoes.bind first next rounds

theorem print (line : String) : Overlooks N (Run.print line) := fun _ _ near =>
  ⟨rfl, congrArg (·.push line) near.printed, near.present⟩

theorem read (looks : ∀ {c d}, N c d → ∀ name, d.lookup name = c.lookup name) (name : Symbol) :
    Overlooks N (Run.read name) := by
  apply Echoes.get
  intro m t near
  rw [looks near.present]
  cases m.stack.current.lookup name.name with
  | some v => exact pure v
  | none => exact fail _

/-- A call works in a context of its own, so it does not matter how the contexts around it are related. -/
theorem inCall {parameters : Scope Value} (grows : x.Moves Machine.Grows) (h : Overlooks Eq x) :
    Overlooks N (Run.inCall parameters x) := by
  intro m t near
  obtain ⟨same, inside⟩ := h { m with stack := m.stack.enter parameters } { t with stack := t.stack.enter parameters }
    ⟨near.printed, rfl⟩
  have kept (u : Machine) : ((Run.inCall parameters x).run.run u).2.stack = u.stack := (Moves.inCall grows u).stack
  refine ⟨same, inside.printed, ?_⟩
  rw [kept m, kept t]
  exact near.present

section
variable {N : Nat → Context Value → Context Value → Prop} {k : Nat}

theorem declare (steady : Context.Steady N) (name : Symbol) (value : Value) :
    Overlooks (N (k + 1)) (Run.declare name value) := by
  intro m t near
  have declared := CallStack.current_modify_related near.present fun h => steady.declare h name.name value
  exact ⟨rfl, near.printed, declared⟩

theorem assign (steady : Context.Steady N) (name : Symbol) (value : Value) :
    Overlooks (N k) (Run.assign name value) := by
  intro m t near
  rw [run_assign, run_assign]
  obtain ⟨hm, ht⟩ | ⟨c, d, hm, ht, changed⟩ := rel_iff.mp (steady.assign near.present name.name value)
  · rw [hm, ht]
    exact fail _ m t near
  · rw [hm, ht]
    have assigned : N k (m.stack.modify fun _ => c).current (t.stack.modify fun _ => d).current :=
      CallStack.current_modify_related near.present fun _ => changed
    exact ⟨rfl, near.printed, assigned⟩

theorem inBlock (steady : Context.Steady N) (h : Overlooks (N (k + 1)) x) : Overlooks (N k) (Run.inBlock x) := by
  apply Echoes.around (run_inBlock x) (run_inBlock x) h
  · intro m t near
    exact ⟨near.printed, CallStack.current_modify_related near.present steady.push⟩
  · intro m t near
    exact ⟨near.printed, CallStack.current_modify_related near.present steady.pop⟩

end

end Run.Overlooks

theorem Builtin.call_overlooks {N : Context Value → Context Value → Prop} (callee : Builtin) (args : List Value) :
    Run.Overlooks N (callee.call args) := by
  unfold call
  split
  · exact .bind (.print _) fun _ => .pure _
  · exact .ofExcept _
  · exact .ofExcept _
  · exact .fail _

/-! ### Expressions -/

section
variable {N : Context Value → Context Value → Prop} {p : Program} {invoke : Invocation}

theorem Program.call_overlooks (calls : ∀ f args, Run.Overlooks N (invoke f args)) (callee : Symbol)
    (args : List Value) : Run.Overlooks N (p.call invoke callee args) := by
  unfold call
  cases Builtin.ofName? callee.name with
  | some builtin => exact builtin.call_overlooks args
  | none =>
    cases p.function? callee.name with
    | some f => exact calls f args
    | none => exact .fail _

mutual

theorem Expr.evaluate_overlooks (looks : ∀ {c d}, N c d → ∀ name, d.lookup name = c.lookup name)
    (calls : ∀ f args, Run.Overlooks N (invoke f args)) (e : Expr) : Run.Overlooks N (e.evaluate p invoke) := by
  cases e with
  | literal value position => exact .pure _
  | var name => exact .read looks name
  | unary op position operand =>
    simp only [Expr.evaluate]
    exact .bind (Expr.evaluate_overlooks looks calls operand) fun _ => .ofExcept _
  | binary left op position right =>
    simp only [Expr.evaluate]
    apply Run.Overlooks.bind (Expr.evaluate_overlooks looks calls left)
    intro l
    exact .bind (Expr.evaluate_overlooks looks calls right) fun _ => .ofExcept _
  | call callee args =>
    simp only [Expr.evaluate]
    exact .bind (Expr.evaluateAll_overlooks looks calls args) fun vs => Program.call_overlooks calls callee vs

theorem Expr.evaluateAll_overlooks (looks : ∀ {c d}, N c d → ∀ name, d.lookup name = c.lookup name)
    (calls : ∀ f args, Run.Overlooks N (invoke f args)) (es : List Expr) :
    Run.Overlooks N (Expr.evaluateAll p invoke es) := by
  cases es with
  | nil => exact .pure _
  | cons e es =>
    simp only [Expr.evaluateAll]
    apply Run.Overlooks.bind (Expr.evaluate_overlooks looks calls e)
    intro v
    exact .bind (Expr.evaluateAll_overlooks looks calls es) fun _ => .pure _

end

theorem Expr.holds_overlooks (looks : ∀ {c d}, N c d → ∀ name, d.lookup name = c.lookup name)
    (calls : ∀ f args, Run.Overlooks N (invoke f args)) (condition : Expr) :
    Run.Overlooks N (condition.holds p invoke) := by
  apply Run.Overlooks.bind (condition.evaluate_overlooks looks calls)
  intro v
  cases v with
  | bool b => exact .pure b
  | int | float | text | void => exact .fail _

end

/-! ### Statements -/

section
variable {N : Nat → Context Value → Context Value → Prop} {p : Program} {invoke : Invocation}

mutual

theorem Stmt.execute_overlooks (steady : Context.Steady N) (calls : ∀ k f args, Run.Overlooks (N k) (invoke f args))
    (rounds k : Nat) (s : Stmt) : Run.Overlooks (N (k + 1)) (s.execute p invoke rounds) := by
  cases s with
  | declare name type value =>
    simp only [Stmt.execute]
    apply Run.Overlooks.bind (value.evaluate_overlooks steady.lookup (calls _))
    intro v
    exact .bind (.declare steady name v) fun _ => .pure _
  | assign name value =>
    simp only [Stmt.execute]
    apply Run.Overlooks.bind (value.evaluate_overlooks steady.lookup (calls _))
    intro v
    exact .bind (.assign steady name v) fun _ => .pure _
  | ifElse condition body otherwise =>
    simp only [Stmt.execute]
    exact .branch (condition.holds_overlooks steady.lookup (calls _))
      (.inBlock steady (Stmt.executeAll_overlooks steady calls rounds _ body))
      (Else.execute_overlooks steady calls rounds _ otherwise)
  | loop condition body =>
    simp only [Stmt.execute]
    exact .repeatWhile (condition.holds_overlooks steady.lookup (calls _))
      (.inBlock steady (Stmt.executeAll_overlooks steady calls rounds _ body)) rounds
  | ret position value =>
    cases value with
    | none => exact .pure _
    | some e =>
      simp only [Stmt.execute]
      exact .bind (e.evaluate_overlooks steady.lookup (calls _)) fun _ => .pure _
  | call callee args =>
    simp only [Stmt.execute]
    exact .bind (Expr.evaluate_overlooks steady.lookup (calls _) (.call callee args)) fun _ => .pure _
  | block body =>
    simp only [Stmt.execute]
    exact .inBlock steady (Stmt.executeAll_overlooks steady calls rounds _ body)

theorem Stmt.executeAll_overlooks (steady : Context.Steady N)
    (calls : ∀ k f args, Run.Overlooks (N k) (invoke f args)) (rounds k : Nat) (ss : List Stmt) :
    Run.Overlooks (N (k + 1)) (Stmt.executeAll p invoke rounds ss) := by
  cases ss with
  | nil => exact .pure _
  | cons s ss =>
    simp only [Stmt.executeAll]
    apply Run.Overlooks.bind (Stmt.execute_overlooks steady calls rounds k s)
    intro flow
    cases flow with
    | normal => exact Stmt.executeAll_overlooks steady calls rounds k ss
    | returned v => exact .pure _

/-- Nothing is declared here outside of a block, so the empty scope may be the innermost one. -/
theorem Else.execute_overlooks (steady : Context.Steady N) (calls : ∀ k f args, Run.Overlooks (N k) (invoke f args))
    (rounds k : Nat) (o : Else) : Run.Overlooks (N k) (o.execute p invoke rounds) := by
  cases o with
  | none => exact .pure _
  | last body =>
    simp only [Else.execute]
    exact .inBlock steady (Stmt.executeAll_overlooks steady calls rounds k body)
  | elseIf condition body otherwise =>
    simp only [Else.execute]
    exact .branch (condition.holds_overlooks steady.lookup (calls k))
      (.inBlock steady (Stmt.executeAll_overlooks steady calls rounds k body))
      (Else.execute_overlooks steady calls rounds k otherwise)

end

end

theorem Function.result_overlooks {N : Context Value → Context Value → Prop} (f : Function) (flow : Flow) :
    Run.Overlooks N (f.result flow) := by
  cases flow with
  | returned v => exact .pure v
  | normal =>
    simp only [Function.result]
    split
    · exact .pure _
    · exact .fail _

/-- A call does the same whatever the names stand for where it is made. -/
theorem Program.invoke_overlooks (p : Program) (bound : Nat) (N : Context Value → Context Value → Prop) (f : Function)
    (args : List Value) : Run.Overlooks N (p.invoke bound f args) := by
  induction bound generalizing N f args with
  | zero => exact .exhaust
  | succ bound ih =>
    have body : Run.Overlooks N (Run.inCall (f.arguments args) (Stmt.executeAll p (p.invoke bound) bound f.body)) :=
      .inCall (Stmt.executeAll_grows (p.invoke_keeps bound) bound f.body)
        (Stmt.executeAll_overlooks .eq (fun _ => ih Eq) bound 0 f.body)
    simp only [invoke]
    split
    · exact .bind (.fail _) fun _ => body.bind f.result_overlooks
    · exact body.bind f.result_overlooks

/-! ### Blocks around a choice -/

/-- A block makes no difference around a run that overlooks its scope and adds no name. -/
theorem Run.inBlock_eq {x : Run Flow} (adds : x.Moves (Machine.Adds ∅)) (overlooks : x.Overlooks (Context.Gap 0)) :
    Run.inBlock x = x := by
  funext m
  change (Run.inBlock x).run.run m = x.run.run m
  obtain ⟨same, near⟩ := overlooks m { m with stack := m.stack.modify .push }
    ⟨rfl, Context.Gap.zero_iff.mpr (CallStack.current_modify _ _)⟩
  obtain ⟨⟨c, outside, -⟩, -⟩ := adds m
  obtain ⟨⟨d, inside, -⟩, -⟩ := adds { m with stack := m.stack.modify .push }
  rw [run_inBlock]
  generalize x.run.run m = r at same near outside ⊢
  generalize x.run.run { m with stack := m.stack.modify .push } = q at same near inside ⊢
  obtain ⟨result, ⟨_, _⟩⟩ := r
  obtain ⟨_, ⟨_, lines⟩⟩ := q
  obtain ⟨rfl, present⟩ := near
  subst outside inside
  rw [CallStack.current_modify, CallStack.current_modify, Context.Gap.zero_iff] at present
  have closed : ((m.stack.modify Context.push).modify fun _ => d).modify Context.pop = m.stack.modify fun _ => c := by
    rw [CallStack.modify_modify, CallStack.modify_modify, present]
    rfl
  cases result <;> exact Prod.ext same (congrArg (Machine.mk · lines) closed)

section
variable (p : Program) (bound rounds : Nat)

theorem Else.inBlock_execute (o : Else) :
    Run.inBlock (o.execute p (p.invoke bound) rounds) = o.execute p (p.invoke bound) rounds :=
  Run.inBlock_eq (Else.execute_adds (p.invoke_keeps bound) rounds o)
    (Else.execute_overlooks Context.Gap.steady (fun k => p.invoke_overlooks bound (Context.Gap k)) rounds 0 o)

/-- A statement that stands alone is all that there is to run. -/
theorem Stmt.executeAll_singleton (invoke : Invocation) (s : Stmt) :
    Stmt.executeAll p invoke rounds [s] = s.execute p invoke rounds := by
  rw [Stmt.executeAll]
  conv_rhs => rw [← bind_pure (s.execute p invoke rounds)]
  congr 1
  funext flow
  cases flow <;> rfl

/-- A further branch is as good as a last branch with a choice in it. -/
theorem Else.execute_nested (condition : Expr) (body : List Stmt) (otherwise : Else) :
    (Else.last [.ifElse condition body otherwise]).execute p (p.invoke bound) rounds =
      (Else.elseIf condition body otherwise).execute p (p.invoke bound) rounds := by
  have choice : (Stmt.ifElse condition body otherwise).execute p (p.invoke bound) rounds =
      (Else.elseIf condition body otherwise).execute p (p.invoke bound) rounds := by
    rw [Stmt.execute, Else.execute]
  rw [Else.execute, Stmt.executeAll_singleton, choice, Else.inBlock_execute]

end

end Mensura
