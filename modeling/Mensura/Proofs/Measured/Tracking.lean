import Mensura.Diagnostic
import Mensura.Proofs.Measured.Machine
import Mensura.Proofs.Result
import Mensura.Proofs.Scope.Related

/-!
Dimensions do not change what a program does. A run with dimensions goes along with the run without them: as long
as it is no misfit, both come to the same value or the same end, have printed the same and hold the same values
in their variables. That is shown step by step, along the structure of programs. Main statement: unless a
program is a misfit, it ends with dimensions as it does without.
-/

namespace Mensura

/-- The same but for dimensions and types. -/
structure MeasuredMachine.Erases (s : MeasuredMachine) (t : Machine) : Prop where
  stack : s.stack.Related (fun x v => x.content.value = v) t.stack
  output : s.output = t.output

/-- The run `y` comes to what `view` makes of the result of `x`, unless `x` is a misfit. -/
def Tracks {α β : Type} (view : α → β) (x : MeasuredRun α) (y : Run β) : Prop :=
  ∀ s t, MeasuredMachine.Erases s t →
    match x.run.run s with
    | (.error .misfit, _) => True
    | (.error (.halted h), s') => (y.run.run t).1 = .error h ∧ s'.Erases (y.run.run t).2
    | (.ok a, s') => (y.run.run t).1 = .ok (view a) ∧ s'.Erases (y.run.run t).2

namespace Tracks

variable {α β γ δ : Type} {view : α → β} {view' : γ → δ} {x : MeasuredRun α} {y : Run β}

theorem pure {a : α} {b : β} (h : view a = b) : Tracks view (Pure.pure a) (Pure.pure b) :=
  fun _ _ erases => ⟨congrArg _ h.symm, erases⟩

theorem fail {error : RunError} : Tracks view (MeasuredRun.fail error) (Run.fail error) :=
  fun _ _ erases => ⟨rfl, erases⟩

theorem fail_bind {error : RunError} {f : γ → MeasuredRun α} {g : δ → Run β} :
    Tracks view (MeasuredRun.fail error >>= f) (Run.fail error >>= g) := fun _ _ erases => ⟨rfl, erases⟩

theorem exhaust : Tracks view MeasuredRun.exhaust Run.exhaust := fun _ _ erases => ⟨rfl, erases⟩

theorem bind {f : α → MeasuredRun γ} {g : β → Run δ} (first : Tracks view x y)
    (rest : ∀ a, Tracks view' (f a) (g (view a))) : Tracks view' (x >>= f) (y >>= g) := by
  intro s t erases
  have h := first s t erases
  rw [run_bind, run_bind]
  generalize x.run.run s = r at h ⊢
  obtain ⟨(h' | _) | a, s'⟩ := r
  · obtain ⟨ending, erases⟩ := h
    generalize y.run.run t = r at ending erases ⊢
    obtain ⟨b, t'⟩ := r
    subst ending
    exact ⟨rfl, erases⟩
  · trivial
  · obtain ⟨ending, erases⟩ := h
    generalize y.run.run t = r at ending erases ⊢
    obtain ⟨b, t'⟩ := r
    subst ending
    exact rest a s' t' erases

/-- What is needed of dimensions has no counterpart. -/
theorem need {o : Option γ} {f : γ → MeasuredRun α} (rest : ∀ c, o = some c → Tracks view (f c) y) :
    Tracks view (MeasuredRun.need o >>= f) y := by
  cases o with
  | none => exact fun _ _ _ => trivial
  | some c => exact rest c rfl

theorem branch {c : MeasuredRun Bool} {c' : Run Bool} {x' : MeasuredRun α} {y' : Run β} (condition : Tracks id c c')
    (yes : Tracks view x y) (no : Tracks view x' y') :
    Tracks view (do if ← c then x else x') (do if ← c' then y else y') := by
  apply Tracks.bind condition
  intro b
  cases b with
  | true => exact yes
  | false => exact no

theorem print (line : String) : Tracks id (MeasuredRun.print line) (Run.print line) :=
  fun _ _ erases => ⟨rfl, erases.stack, congrArg (Array.push · line) erases.output⟩

theorem read (name : Symbol) : Tracks Measured.value (MeasuredRun.read name) (Run.read name) := by
  intro s t erases
  rw [MeasuredRun.run_read, Run.run_read]
  obtain ⟨hs, ht⟩ | ⟨x, v, hs, ht, same⟩ := rel_iff.mp (erases.stack.current.lookup name.name)
  · rw [hs, ht]
    exact (fail : Tracks Measured.value _ _) s t erases
  · rw [hs, ht]
    exact pure same s t erases

theorem declare (table : UnitTable) (name : Symbol) (type : Ty) (q : Measured) :
    Tracks id (MeasuredRun.declare table name type q) (Run.declare name q.value) := by
  apply need
  intro _ _ s t erases
  have declared : (s.stack.current.declare name.name ⟨type, q⟩).Related (fun x v => x.content.value = v)
      (t.stack.current.declare name.name q.value) := erases.stack.current.declare rfl
  exact ⟨rfl, erases.stack.modify (·.declare name.name ⟨type, q⟩) (·.declare name.name q.value) declared,
    erases.output⟩

theorem assign (table : UnitTable) (name : Symbol) (q : Measured) :
    Tracks id (MeasuredRun.assign table name q) (Run.assign name q.value) := by
  intro s t erases
  rw [MeasuredRun.run_assign, Run.run_assign]
  obtain ⟨hs, ht⟩ | ⟨x, v, hs, ht, -⟩ := rel_iff.mp (erases.stack.current.lookup name.name)
  · rw [hs, Context.assign?_eq_none ht]
    exact (fail : Tracks id _ _) s t erases
  · rw [hs]
    dsimp only
    refine (need fun _ _ => ?_ : Tracks id _ _) s t erases
    have assigned := erases.stack.current.assign? (a := ⟨x.type, q⟩) name.name rfl
    obtain ⟨hc, hd⟩ | ⟨c, d, hc, hd, related⟩ := rel_iff.mp assigned
    · rw [hc, hd]
      exact fail
    · rw [hc, hd]
      exact fun s t erases => ⟨rfl, erases.stack.modify (fun _ => c) (fun _ => d) related, erases.output⟩

/-- Both runs may be started from elsewhere, and both states may be put in order afterwards. -/
theorem around {x' : MeasuredRun α} {y' : Run β} {enter leave : MeasuredMachine → MeasuredMachine}
    {enter' leave' : Machine → Machine} (run : ∀ s, x'.run.run s = (x.run.run (enter s)).map id leave)
    (run' : ∀ t, y'.run.run t = (y.run.run (enter' t)).map id leave')
    (into : ∀ s t, MeasuredMachine.Erases s t → (enter s).Erases (enter' t))
    (out : ∀ s t, MeasuredMachine.Erases s t → (leave s).Erases (leave' t)) (h : Tracks view x y) :
    Tracks view x' y' := by
  intro s t erases
  have inner := h (enter s) (enter' t) (into s t erases)
  rw [run, run']
  generalize x.run.run (enter s) = r at inner ⊢
  obtain ⟨(_ | _) | _, s'⟩ := r
  · exact ⟨inner.1, out _ _ inner.2⟩
  · trivial
  · exact ⟨inner.1, out _ _ inner.2⟩

theorem inBlock (h : Tracks view x y) : Tracks view (MeasuredRun.inBlock x) (Run.inBlock y) := by
  refine around (MeasuredRun.run_inBlock x) (Run.run_inBlock y) ?_ ?_ h
  · exact fun s t erases => ⟨erases.stack.modify .push .push erases.stack.current.push, erases.output⟩
  · exact fun s t erases => ⟨erases.stack.modify .pop .pop erases.stack.current.pop, erases.output⟩

theorem inCall {parameters : Scope Variable} {values : Scope Value}
    (same : parameters.Related (fun x v => x.content.value = v) values) (h : Tracks view x y) :
    Tracks view (MeasuredRun.inCall parameters x) (Run.inCall values y) := by
  refine around (MeasuredRun.run_inCall parameters x) (Run.run_inCall values y) ?_ ?_ h
  · exact fun s t erases => ⟨erases.stack.enter same, erases.output⟩
  · exact fun s t erases => ⟨erases.stack.exit, erases.output⟩

end Tracks

/-! ### Operations -/

theorem Measured.value_attach (d : Dimension) (v : Value) : (attach d v).value = v := by cases v <;> rfl

/-- A dimension may be put on a result. -/
theorem Tracks.attach (d : Dimension) (result : Except RunError Value) :
    Tracks Measured.value (do return .attach d (← MeasuredRun.ofExcept result)) (Run.ofExcept result) := by
  cases result with
  | ok v => exact .pure (Measured.value_attach d v)
  | error e => exact .fail

theorem Literal.measured_tracks (table : UnitTable) (v : Literal) :
    Tracks Measured.value (v.measured table) (pure v.toValue) := by
  match v with
  | .int _ none | .float _ none | .bool _ | .text _ => exact .pure rfl
  | .int _ (some _) | .float _ (some _) => exact .need fun _ _ => .pure rfl

theorem UnaryOp.applyMeasured_tracks (op : UnaryOp) (position : Position) (q : Measured) :
    Tracks Measured.value (op.applyMeasured position q) (Run.ofExcept (op.apply position q.value)) :=
  .attach _ _

theorem BinaryOp.applyMeasured_tracks (op : BinaryOp) (position : Position) (l r : Measured) :
    Tracks Measured.value (op.applyMeasured position l r) (Run.ofExcept (op.apply position l.value r.value)) :=
  .need fun d _ => .attach d _

theorem Builtin.callMeasured_tracks (callee : Builtin) (args : List Measured) :
    Tracks Measured.value (callee.callMeasured args) (callee.call (args.map Measured.value)) := by
  have wrong {n : Nat} : Tracks Measured.value
      (MeasuredRun.fail (.unchecked (.builtinArguments callee n)))
      (Run.fail (.unchecked (.builtinArguments callee n))) := .fail
  match callee, args with
  | print, [q] => exact .bind (.print q.value.display) fun _ => .pure rfl
  | sqrt, [x] => exact .need fun d _ => .attach d _
  | power, [base, exponent] => exact .need fun d _ => .attach d _
  | print, [] | sqrt, [] | power, [] | power, [_] => exact wrong
  | print, _ :: _ :: rest | sqrt, _ :: _ :: rest | power, _ :: _ :: _ :: rest =>
    have count : (rest.map Measured.value).length = rest.length := List.length_map _
    simpa [callMeasured, call, count] using wrong

/-! ### Programs -/

namespace MeasuredFlow

/-- The same without the dimension. -/
def flow : MeasuredFlow → Flow
  | normal => .normal
  | returned q => .returned q.value

end MeasuredFlow

section
variable {p : Program} {invoke : MeasuredInvocation} {invoke' : Invocation}

/-- Calls go along with each other. -/
def MeasuredInvocation.Tracks (invoke : MeasuredInvocation) (invoke' : Invocation) : Prop :=
  ∀ f args, Mensura.Tracks Measured.value (invoke f args) (invoke' f (args.map Measured.value))

theorem Program.callMeasured_tracks (calls : invoke.Tracks invoke') (callee : Symbol) (args : List Measured) :
    Tracks Measured.value (p.callMeasured invoke callee args) (p.call invoke' callee (args.map Measured.value)) := by
  unfold callMeasured call
  cases Builtin.ofName? callee.name with
  | some builtin => exact builtin.callMeasured_tracks args
  | none =>
    cases p.function? callee.name with
    | some f => exact calls f args
    | none => exact .fail

mutual

theorem Expr.measured_tracks (calls : invoke.Tracks invoke') (e : Expr) :
    Tracks Measured.value (e.measured p invoke) (e.evaluate p invoke') := by
  cases e with
  | literal value position =>
    simp only [Expr.measured, Expr.evaluate]
    exact value.measured_tracks p.unitTable
  | var name =>
    simp only [Expr.measured, Expr.evaluate]
    exact .read name
  | unary op position operand =>
    simp only [Expr.measured, Expr.evaluate]
    exact .bind (Expr.measured_tracks calls operand) fun q => op.applyMeasured_tracks position q
  | binary left op position right =>
    simp only [Expr.measured, Expr.evaluate]
    apply Tracks.bind (Expr.measured_tracks calls left)
    intro l
    exact .bind (Expr.measured_tracks calls right) fun r => op.applyMeasured_tracks position l r
  | call callee args =>
    simp only [Expr.measured, Expr.evaluate]
    exact .bind (Expr.measuredAll_tracks calls args) fun qs => Program.callMeasured_tracks calls callee qs

theorem Expr.measuredAll_tracks (calls : invoke.Tracks invoke') (es : List Expr) :
    Tracks (List.map Measured.value) (Expr.measuredAll p invoke es) (Expr.evaluateAll p invoke' es) := by
  cases es with
  | nil => exact .pure rfl
  | cons e es =>
    simp only [Expr.measuredAll, Expr.evaluateAll]
    apply Tracks.bind (Expr.measured_tracks calls e)
    intro q
    exact .bind (Expr.measuredAll_tracks calls es) fun qs => .pure rfl

end

theorem Expr.holdsMeasured_tracks (calls : invoke.Tracks invoke') (condition : Expr) :
    Tracks id (condition.holdsMeasured p invoke) (condition.holds p invoke') := by
  apply Tracks.bind (Expr.measured_tracks calls condition)
  intro q
  cases q with
  | bool b => exact .pure rfl
  | _ => exact .fail

theorem Tracks.repeatWhile {condition : MeasuredRun Bool} {condition' : Run Bool} {body : MeasuredRun MeasuredFlow}
    {body' : Run Flow} (first : Tracks id condition condition') (next : Tracks MeasuredFlow.flow body body')
    (rounds : Nat) :
    Tracks MeasuredFlow.flow (MeasuredRun.repeatWhile condition body rounds)
      (Run.repeatWhile condition' body' rounds) := by
  induction rounds with
  | zero => exact .exhaust
  | succ rounds ih =>
    apply Tracks.bind first
    intro b
    cases b with
    | false => exact .pure rfl
    | true =>
      apply Tracks.bind next
      intro flow
      cases flow with
      | normal => exact ih
      | returned q => exact .pure rfl

mutual

theorem Stmt.measured_tracks (calls : invoke.Tracks invoke') (rounds : Nat) (s : Stmt) :
    Tracks MeasuredFlow.flow (s.measured p invoke rounds) (s.execute p invoke' rounds) := by
  cases s with
  | declare name type value =>
    simp only [Stmt.measured, Stmt.execute]
    apply Tracks.bind (Expr.measured_tracks calls value)
    intro q
    exact .bind (.declare _ name type q) fun _ => .pure rfl
  | assign name value =>
    simp only [Stmt.measured, Stmt.execute]
    apply Tracks.bind (Expr.measured_tracks calls value)
    intro q
    exact .bind (.assign _ name q) fun _ => .pure rfl
  | ifElse condition body otherwise =>
    simp only [Stmt.measured, Stmt.execute]
    exact .branch (Expr.holdsMeasured_tracks calls condition) (.inBlock (Stmt.measuredAll_tracks calls rounds body))
      (Else.measured_tracks calls rounds otherwise)
  | loop condition body =>
    simp only [Stmt.measured, Stmt.execute]
    exact .repeatWhile (Expr.holdsMeasured_tracks calls condition)
      (.inBlock (Stmt.measuredAll_tracks calls rounds body)) rounds
  | ret position value =>
    cases value with
    | some e =>
      simp only [Stmt.measured, Stmt.execute]
      exact .bind (Expr.measured_tracks calls e) fun q => .pure rfl
    | none => exact .pure rfl
  | call callee args =>
    simp only [Stmt.measured, Stmt.execute]
    exact .bind (Expr.measured_tracks calls (.call callee args)) fun _ => .pure rfl
  | block body =>
    simp only [Stmt.measured, Stmt.execute]
    exact .inBlock (Stmt.measuredAll_tracks calls rounds body)

theorem Stmt.measuredAll_tracks (calls : invoke.Tracks invoke') (rounds : Nat) (ss : List Stmt) :
    Tracks MeasuredFlow.flow (Stmt.measuredAll p invoke rounds ss) (Stmt.executeAll p invoke' rounds ss) := by
  cases ss with
  | nil => exact .pure rfl
  | cons s ss =>
    simp only [Stmt.measuredAll, Stmt.executeAll]
    apply Tracks.bind (Stmt.measured_tracks calls rounds s)
    intro flow
    cases flow with
    | normal => exact Stmt.measuredAll_tracks calls rounds ss
    | returned q => exact .pure rfl

theorem Else.measured_tracks (calls : invoke.Tracks invoke') (rounds : Nat) (o : Else) :
    Tracks MeasuredFlow.flow (o.measured p invoke rounds) (o.execute p invoke' rounds) := by
  cases o with
  | none => exact .pure rfl
  | last body =>
    simp only [Else.measured, Else.execute]
    exact .inBlock (Stmt.measuredAll_tracks calls rounds body)
  | elseIf condition body otherwise =>
    simp only [Else.measured, Else.execute]
    exact .branch (Expr.holdsMeasured_tracks calls condition) (.inBlock (Stmt.measuredAll_tracks calls rounds body))
      (Else.measured_tracks calls rounds otherwise)

end

/-- The arguments are the same as values and as variables. -/
theorem Function.measuredArguments_related (f : Function) {args : List Measured}
    (count : args.length = f.params.length) :
    (f.measuredArguments args).Related (fun x v => x.content.value = v) (f.arguments (args.map Measured.value)) := by
  refine .ofList ?_
  generalize f.params = params at count
  induction params generalizing args with
  | nil => exact .nil
  | cons param params ih =>
    cases args with
    | nil => cases count
    | cons q qs => exact .cons ⟨rfl, rfl⟩ (ih (Nat.succ.inj count))

theorem Function.measuredResult_tracks (table : UnitTable) (f : Function) (flow : MeasuredFlow) :
    Tracks Measured.value (f.measuredResult table flow) (f.result flow.flow) := by
  cases flow with
  | returned q => exact .need fun _ _ => .pure rfl
  | normal =>
    simp only [measuredResult, result, MeasuredFlow.flow]
    split
    · exact .pure rfl
    · exact .fail

/-- Checking arguments has no counterpart. -/
theorem Tracks.needTypes {α β : Type} {view : α → β} {table : UnitTable} {params : List Param} {qs : List Measured}
    {x : MeasuredRun α} {y : Run β} (rest : Tracks view x y) :
    Tracks view (do MeasuredRun.needTypes table params qs; x) y := by
  induction params generalizing qs with
  | nil => exact rest
  | cons param params ih =>
    cases qs with
    | nil => exact rest
    | cons q qs =>
      simp only [MeasuredRun.needTypes, bind_assoc]
      exact .need fun _ _ => ih

theorem Program.invokeMeasured_tracks (bound : Nat) : (p.invokeMeasured bound).Tracks (p.invoke bound) := by
  induction bound with
  | zero => exact fun _ _ => .exhaust
  | succ bound ih =>
    intro f args
    simp only [invokeMeasured, invoke, List.length_map]
    split
    · exact .fail_bind
    · rename_i count
      refine .needTypes (.bind ?_ fun flow => f.measuredResult_tracks p.unitTable flow)
      exact .inCall (f.measuredArguments_related (not_not.mp count)) (Stmt.measuredAll_tracks ih bound f.body)

theorem Program.runMeasured_tracks (bound : Nat) : Tracks id (p.runMeasured bound) (p.run bound) := by
  have calls := p.invokeMeasured_tracks bound
  unfold runMeasured run
  apply Tracks.bind (Stmt.measuredAll_tracks calls bound p.statements)
  intro flow
  cases flow with
  | returned q => exact .fail
  | normal =>
    cases p.function? "main" with
    | none => exact .pure rfl
    | some main => exact .bind (calls main []) fun _ => .pure rfl

/-- A program that is no misfit ends with dimensions as it does without. -/
theorem Program.measuredOutcome_eq (bound : Nat) (fits : (p.measuredOutcome bound).ending ≠ .error .misfit) :
    (p.measuredOutcome bound).ending = (p.outcome bound).ending.mapError .halted ∧
      (p.measuredOutcome bound).printed = (p.outcome bound).printed := by
  have tracks := p.runMeasured_tracks bound .start .start ⟨.empty, rfl⟩
  have left : p.measuredOutcome bound = ⟨((p.runMeasured bound).run.run .start).1,
    ((p.runMeasured bound).run.run .start).2.output.toList⟩ := rfl
  have right : p.outcome bound = ⟨((p.run bound).run.run .start).1,
    ((p.run bound).run.run .start).2.output.toList⟩ := rfl
  rw [left] at fits ⊢
  rw [right]
  generalize (p.runMeasured bound).run.run .start = r at tracks fits ⊢
  obtain ⟨(h | _) | a, s⟩ := r
  · obtain ⟨ending, erases⟩ := tracks
    rw [ending, erases.output]
    exact ⟨rfl, rfl⟩
  · exact absurd rfl fits
  · obtain ⟨ending, erases⟩ := tracks
    rw [ending, erases.output]
    exact ⟨rfl, rfl⟩

end

end Mensura
