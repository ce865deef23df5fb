import Mensura.Diagnostic
import Mensura.Proofs.Typing.Places

/-!
Running does not look at places, and not at the order in which functions and units are kept: a run goes on in the
same way without them, and if it fails, it fails for the same cause but for the places in it. Main statement: programs
that are alike are accepted or refused together, and whether accepted or not, they print the same and end alike.
-/

namespace Mensura

def UncheckedFault.placeless : UncheckedFault → UncheckedFault
  | binaryOperands op _ left right => binaryOperands op .start left right
  | fault => fault

/-- The error, with its places forgotten. -/
def RunError.placeless : RunError → RunError
  | divisionByZero _ => divisionByZero .start
  | integerOverflow _ => integerOverflow .start
  | missingReturn function => missingReturn function
  | undefinedVariable name => undefinedVariable name.placeless
  | undefinedFunction name => undefinedFunction name.placeless
  | builtin callee fault => builtin callee fault
  | unchecked fault => unchecked fault.placeless

def Halt.placeless : Halt → Halt
  | failed error => failed error.placeless
  | exhausted => exhausted

theorem UnaryOp.apply_placeless (op : UnaryOp) (position : Position) (v : Value) :
    op.apply .start v = (op.apply position v).mapError RunError.placeless := by
  fun_cases op.apply position v <;> simp_all [apply, Except.mapError, RunError.placeless, UncheckedFault.placeless]

namespace BinaryOp

variable (op : BinaryOp) (position : Position) (left right : Value)

theorem numbers_placeless :
    op.numbers .start left right = (op.numbers position left right).mapError RunError.placeless := by
  unfold numbers
  cases left.number? <;> cases right.number? <;> rfl

theorem compute_placeless (operation : Arithmetic) :
    op.compute .start operation left right =
      (op.compute position operation left right).mapError RunError.placeless := by
  unfold compute
  split
  · cases operation.onIntegers _ _ with
    | none => rfl
    | some k => dsimp only; cases int64? k <;> rfl
  · rw [mapError_map, ← numbers_placeless]

theorem equalValues_placeless :
    op.equalValues .start left right = (op.equalValues position left right).mapError RunError.placeless := by
  unfold equalValues
  split
  · rfl
  · rfl
  · rfl
  · rw [mapError_map, ← numbers_placeless]

theorem connect_placeless (connective : Bool → Bool → Bool) :
    op.connect .start connective left right =
      (op.connect position connective left right).mapError RunError.placeless := by
  unfold connect
  split <;> rfl

theorem compare_placeless (comparison : Comparison) :
    op.compare .start comparison left right =
      (op.compare position comparison left right).mapError RunError.placeless := by
  unfold compare
  rw [mapError_map, ← numbers_placeless]

theorem join_placeless : op.join .start left right = (op.join position left right).mapError RunError.placeless := by
  unfold join
  split
  · rfl
  · exact compute_placeless op position left right .add

theorem apply_placeless : op.apply .start left right = (op.apply position left right).mapError RunError.placeless := by
  cases op
  case plus => exact join_placeless ..
  case minus => exact compute_placeless _ _ _ _ .subtract
  case star => exact compute_placeless _ _ _ _ .multiply
  case slash => exact compute_placeless _ _ _ _ .divide
  case equal | notEqual => simp only [apply, mapError_map, ← equalValues_placeless]
  case greater | greaterEqual | less | lessEqual => exact compare_placeless ..
  case and | or => exact connect_placeless ..

end BinaryOp

/-! ### Running -/

/-- Both runs do the same, but for the places in an error. -/
def Run.Echoes {α : Type} (x y : Run α) : Prop := Mensura.Echoes Eq Halt.placeless x y

namespace Run.Echoes

variable {α β : Type} {x y : Run α}

theorem pure (a : α) : Run.Echoes (Pure.pure a) (Pure.pure a) := Mensura.Echoes.pure a

theorem fail (error : RunError) : Run.Echoes (Run.fail error : Run α) (Run.fail error.placeless) :=
  Mensura.Echoes.throw _

theorem exhaust : Run.Echoes (Run.exhaust : Run α) Run.exhaust := Mensura.Echoes.throw _

theorem bind {f g : α → Run β} (first : Run.Echoes x y) (rest : ∀ a, Run.Echoes (f a) (g a)) :
    Run.Echoes (x >>= f) (y >>= g) := Mensura.Echoes.bind first rest

/-- A step that knows no places. -/
theorem plain {step : Run α} (h : ∀ m, ∃ a t, step.run.run m = (.ok a, t)) : Run.Echoes step step := by
  rintro m _ rfl
  obtain ⟨a, t, ran⟩ := h m
  rw [ran]
  exact ⟨rfl, rfl⟩

theorem ofExcept {result other : Except RunError α} (same : other = result.mapError RunError.placeless) :
    Run.Echoes (Run.ofExcept result) (Run.ofExcept other) := by
  subst same
  cases result with
  | ok a => exact pure a
  | error e => exact fail e

theorem read (name : Symbol) : Run.Echoes (Run.read name) (Run.read name.placeless) := by
  apply Mensura.Echoes.get
  rintro m _ rfl
  simp only [Symbol.placeless]
  cases m.stack.current.lookup name.name with
  | some v => exact pure v
  | none => exact fail _

theorem assign (name : Symbol) (value : Value) :
    Run.Echoes (Run.assign name value) (Run.assign name.placeless value) := by
  apply Mensura.Echoes.get
  rintro m _ rfl
  simp only [Symbol.placeless]
  cases m.stack.current.assign? name.name value with
  | some c => exact plain fun m => ⟨_, _, rfl⟩
  | none => exact fail _

theorem branch {c d : Run Bool} {x' y' : Run α} (condition : Run.Echoes c d) (yes : Run.Echoes x y)
    (no : Run.Echoes x' y') : Run.Echoes (do if ← c then x else x') (do if ← d then y else y') :=
  Mensura.Echoes.branch condition yes no

theorem inBlock (h : Run.Echoes x y) : Run.Echoes (Run.inBlock x) (Run.inBlock y) :=
  Mensura.Echoes.around (Run.run_inBlock x) (Run.run_inBlock y) h (fun _ _ same => same ▸ rfl)
    fun _ _ same => same ▸ rfl

theorem inCall {parameters : Scope Value} (h : Run.Echoes x y) :
    Run.Echoes (Run.inCall parameters x) (Run.inCall parameters y) :=
  Mensura.Echoes.around (Run.run_inCall parameters x) (Run.run_inCall parameters y) h
    (fun _ _ same => same ▸ rfl) fun _ _ same => same ▸ rfl

theorem repeatWhile {condition condition' : Run Bool} {body body' : Run Flow}
    (first : Run.Echoes condition condition') (next : Run.Echoes body body') (rounds : Nat) :
    Run.Echoes (Run.repeatWhile condition body rounds) (Run.repeatWhile condition' body' rounds) :=
  Run.repeatWhile_related (R := Run.Echoes) pure exhaust bind first next rounds

end Run.Echoes

theorem Builtin.call_echoes (callee : Builtin) (args : List Value) :
    Run.Echoes (callee.call args) (callee.call args) := by
  have answered (result : Except BuiltinFault Value) :
      Run.Echoes (Builtin.call.answer callee result) (Builtin.call.answer callee result) :=
    .ofExcept (by cases result <;> rfl)
  unfold call
  split
  · exact .plain fun m => ⟨_, _, rfl⟩
  · exact answered _
  · exact answered _
  · exact .fail _

section
variable {p r : Program} {invoke invoke' : Invocation}

theorem Program.Forgets.call (forgets : p.Forgets r)
    (calls : ∀ f args, Run.Echoes (invoke f args) (invoke' f.placeless args)) (callee : Symbol) (args : List Value) :
    Run.Echoes (p.call invoke callee args) (r.call invoke' callee.placeless args) := by
  unfold Program.call
  simp only [Symbol.placeless]
  cases Builtin.ofName? callee.name with
  | some builtin => exact builtin.call_echoes args
  | none =>
    rw [forgets.functions]
    cases p.function? callee.name with
    | some f => exact calls f args
    | none => exact .fail _

mutual

theorem Expr.evaluate_placeless (forgets : p.Forgets r)
    (calls : ∀ f args, Run.Echoes (invoke f args) (invoke' f.placeless args)) (e : Expr) :
    Run.Echoes (e.evaluate p invoke) (e.placeless.evaluate r invoke') := by
  cases e with
  | literal value position => exact .pure _
  | var name => exact .read name
  | unary op position operand =>
    simp only [Expr.placeless, Expr.evaluate]
    exact .bind (Expr.evaluate_placeless forgets calls operand) fun v => .ofExcept (op.apply_placeless position v)
  | binary left op position right =>
    simp only [Expr.placeless, Expr.evaluate]
    apply Run.Echoes.bind (Expr.evaluate_placeless forgets calls left)
    intro l
    apply Run.Echoes.bind (Expr.evaluate_placeless forgets calls right)
    intro v
    exact .ofExcept (op.apply_placeless position l v)
  | call callee args =>
    simp only [Expr.placeless, Expr.evaluate]
    exact .bind (Expr.evaluateAll_placeless forgets calls args) fun values => forgets.call calls callee values

theorem Expr.evaluateAll_placeless (forgets : p.Forgets r)
    (calls : ∀ f args, Run.Echoes (invoke f args) (invoke' f.placeless args)) (es : List Expr) :
    Run.Echoes (Expr.evaluateAll p invoke es) (Expr.evaluateAll r invoke' (Expr.allPlaceless es)) := by
  cases es with
  | nil => exact .pure _
  | cons e es =>
    simp only [Expr.allPlaceless, Expr.evaluateAll]
    apply Run.Echoes.bind (Expr.evaluate_placeless forgets calls e)
    intro v
    exact .bind (Expr.evaluateAll_placeless forgets calls es) fun _ => .pure _

end

theorem Expr.holds_placeless (forgets : p.Forgets r)
    (calls : ∀ f args, Run.Echoes (invoke f args) (invoke' f.placeless args)) (condition : Expr) :
    Run.Echoes (condition.holds p invoke) (condition.placeless.holds r invoke') := by
  apply Run.Echoes.bind (condition.evaluate_placeless forgets calls)
  intro v
  cases v with
  | bool b => exact .pure b
  | _ => exact .fail _

mutual

theorem Stmt.execute_placeless (forgets : p.Forgets r)
    (calls : ∀ f args, Run.Echoes (invoke f args) (invoke' f.placeless args)) (rounds : Nat) (s : Stmt) :
    Run.Echoes (s.execute p invoke rounds) (s.placeless.execute r invoke' rounds) := by
  cases s with
  | declare name type value =>
    simp only [Stmt.placeless, Stmt.execute]
    apply Run.Echoes.bind (value.evaluate_placeless forgets calls)
    intro v
    exact .bind (.plain fun m => ⟨_, _, rfl⟩) fun _ => .pure _
  | assign name value =>
    simp only [Stmt.placeless, Stmt.execute]
    apply Run.Echoes.bind (value.evaluate_placeless forgets calls)
    intro v
    exact .bind (.assign name v) fun _ => .pure _
  | ifElse condition body otherwise =>
    simp only [Stmt.placeless, Stmt.execute]
    exact .branch (condition.holds_placeless forgets calls)
      (.inBlock (Stmt.executeAll_placeless forgets calls rounds body))
      (Else.execute_placeless forgets calls rounds otherwise)
  | loop condition body =>
    simp only [Stmt.placeless, Stmt.execute]
    exact .repeatWhile (condition.holds_placeless forgets calls)
      (.inBlock (Stmt.executeAll_placeless forgets calls rounds body)) rounds
  | ret position value =>
    cases value with
    | none => exact .pure _
    | some e =>
      simp only [Stmt.placeless, Option.map_some, Stmt.execute]
      exact .bind (e.evaluate_placeless forgets calls) fun _ => .pure _
  | call callee args =>
    simp only [Stmt.placeless, Stmt.execute]
    exact .bind (Expr.evaluate_placeless forgets calls (.call callee args)) fun _ => .pure _
  | block body =>
    simp only [Stmt.placeless, Stmt.execute]
    exact .inBlock (Stmt.executeAll_placeless forgets calls rounds body)

theorem Stmt.executeAll_placeless (forgets : p.Forgets r)
    (calls : ∀ f args, Run.Echoes (invoke f args) (invoke' f.placeless args)) (rounds : Nat) (ss : List Stmt) :
    Run.Echoes (Stmt.executeAll p invoke rounds ss) (Stmt.executeAll r invoke' rounds (Stmt.allPlaceless ss)) := by
  cases ss with
  | nil => exact .pure _
  | cons s ss =>
    simp only [Stmt.allPlaceless, Stmt.executeAll]
    apply Run.Echoes.bind (Stmt.execute_placeless forgets calls rounds s)
    intro flow
    cases flow with
    | normal => exact Stmt.executeAll_placeless forgets calls rounds ss
    | returned v => exact .pure _

theorem Else.execute_placeless (forgets : p.Forgets r)
    (calls : ∀ f args, Run.Echoes (invoke f args) (invoke' f.placeless args)) (rounds : Nat) (o : Else) :
    Run.Echoes (o.execute p invoke rounds) (o.placeless.execute r invoke' rounds) := by
  cases o with
  | none => exact .pure _
  | last body =>
    simp only [Else.placeless, Else.execute]
    exact .inBlock (Stmt.executeAll_placeless forgets calls rounds body)
  | elseIf condition body otherwise =>
    simp only [Else.placeless, Else.execute]
    exact .branch (condition.holds_placeless forgets calls)
      (.inBlock (Stmt.executeAll_placeless forgets calls rounds body))
      (Else.execute_placeless forgets calls rounds otherwise)

end

namespace Program

/-- The same for calls that nest at most `bound` deep. -/
theorem Forgets.invocation (forgets : p.Forgets r) (bound : Nat) (f : Function) (args : List Value) :
    Run.Echoes (p.invoke bound f args) (r.invoke bound f.placeless args) := by
  induction bound generalizing f args with
  | zero => exact .exhaust
  | succ bound ih =>
    have arguments : f.placeless.arguments args = f.arguments args := by
      simp only [Function.arguments, Function.placeless, List.map_map]
      rfl
    have result (flow : Flow) : Run.Echoes (f.result flow) (f.placeless.result flow) := by
      cases flow with
      | returned v => exact .pure v
      | normal =>
        change Run.Echoes (f.result .normal) (f.result .normal)
        simp only [Function.result]
        split
        · exact .pure _
        · exact .fail _
    have length : f.placeless.params.length = f.params.length := List.length_map _
    have body : Run.Echoes (Run.inCall (f.arguments args) (Stmt.executeAll p (p.invoke bound) bound f.body))
        (Run.inCall (f.arguments args) (Stmt.executeAll r (r.invoke bound) bound (Stmt.allPlaceless f.body))) :=
      .inCall (Stmt.executeAll_placeless forgets ih bound f.body)
    simp only [invoke, arguments, length]
    split
    · exact .bind (.fail _) fun _ => body.bind result
    · exact body.bind result

/-- A run goes on without places as it does with them. -/
theorem Forgets.run (forgets : p.Forgets r) (bound : Nat) : Run.Echoes (p.run bound) (r.run bound) := by
  unfold Program.run
  rw [forgets.statements]
  apply Run.Echoes.bind (Stmt.executeAll_placeless forgets (forgets.invocation bound) bound p.statements)
  intro flow
  cases flow with
  | returned v => exact .fail _
  | normal =>
    rw [forgets.functions]
    cases p.function? "main" with
    | none => exact .pure _
    | some main => exact .bind (forgets.invocation bound main []) fun _ => .pure _

end Program

end

namespace Program

variable {p q : Program}

/-- The order of definitions does not matter. Programs with the same statements, units and functions, in whatever
order and but for their places, are accepted or refused together. Accepted or not, from the start they print the
same, and both end well or both fail for the same cause but for the places in it. -/
theorem order_irrelevant (distinct : p.Distinct) (alike : q.Alike p) :
    (q.checked = .ok () ↔ p.checked = .ok ()) ∧
      ∀ bound, (q.outcome bound).printed = (p.outcome bound).printed ∧
        (q.outcome bound).ending.mapError Halt.placeless = (p.outcome bound).ending.mapError Halt.placeless := by
  refine ⟨alike.accepted_iff distinct, fun bound => ?_⟩
  obtain ⟨ending, machine⟩ := (Forgets.placeless p).run bound .start .start rfl
  obtain ⟨ending', machine'⟩ := (alike.forgets distinct).run bound .start .start rfl
  refine ⟨?_, ending'.symm.trans ending⟩
  exact congrArg (fun m : Machine => m.output.toList) (machine'.trans machine.symm)

/-- Two units and two functions, of which the first leads to the second each time. -/
def usesFirst : Program where
  functions :=
    [⟨⟨"twice", ⟨1, 5⟩⟩, [], .quantity (.ofName "hour"), [.ret ⟨2, 3⟩ (some (.binary
      (.call ⟨"once", ⟨2, 10⟩⟩ []) .plus ⟨2, 17⟩ (.call ⟨"once", ⟨2, 19⟩⟩ [])))]⟩,
    ⟨⟨"once", ⟨4, 5⟩⟩, [], .quantity (.ofName "hour"),
      [.ret ⟨5, 3⟩ (some (.literal (.int 3 (some (.ofName "hour"))) ⟨5, 10⟩))]⟩]
  units := [⟨⟨"hour", ⟨7, 6⟩⟩, .ofName "minute"⟩, ⟨⟨"minute", ⟨8, 6⟩⟩, .ofName "s"⟩]
  statements := [.call ⟨"print", ⟨9, 1⟩⟩ [.call ⟨"twice", ⟨9, 7⟩⟩ []]]

/-- The same, with the definitions in front of their uses and all places forgotten. -/
def usesLast : Program := { usesFirst.placeless with
  functions := usesFirst.placeless.functions.reverse
  units := usesFirst.placeless.units.reverse }

theorem order_irrelevant_uses :
    usesFirst.checked = .ok () ∧ usesLast.checked = .ok () ∧ (usesLast.outcome 3).printed = ["6"] ∧
      (usesLast.outcome 3).ending = .ok () := by
  have distinct : usesFirst.Distinct := ⟨by decide, by decide⟩
  have alike : usesLast.Alike usesFirst := ⟨List.Perm.swap .., List.Perm.swap .., rfl⟩
  obtain ⟨accepted, outcomes⟩ := order_irrelevant distinct alike
  obtain ⟨printed, ending⟩ := outcomes 3
  have checked : usesFirst.checked = .ok () := by
    rw [checked_iff_accepted]
    exact ⟨by decide +kernel, by decide +kernel, by decide +kernel, by decide +kernel⟩
  have lines : (usesFirst.outcome 3).printed = ["6"] := by decide +kernel
  have ended : (usesFirst.outcome 3).ending = .ok () := by decide +kernel
  refine ⟨checked, accepted.mpr checked, printed.trans lines, ?_⟩
  rw [ended] at ending
  exact mapError_eq_ok.mp ending

end Program

end Mensura
