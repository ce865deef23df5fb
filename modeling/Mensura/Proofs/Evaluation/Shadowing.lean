import Mensura.Proofs.Evaluation.Manner
import Mensura.Proofs.Scope.Unshadowed
import Mensura.Proofs.Typing.Exactness

/-!
Checked programs never shadow a name. Checking finds every declaration once, at its place in the text, but a run
comes by it any number of times; the names that are in scope there are the same each time. So every declaration
finds its name free. Main statement: at no moment of a run of an accepted program does a name have a meaning in two
scopes, and it makes no difference whether assignments change the nearest meaning of a name or every one.
-/

namespace Mensura

/-! ### Manners that do what is usual -/

section
variable {σ : Type} {view : σ → Machine} {good : σ → Prop}

/-- From good states in which the present context is as `pre` says, `y` does what `x` does and comes to a good
state. -/
def Mirrors {α : Type} (view : σ → Machine) (good : σ → Prop) (pre : Context Value → Prop) (y : RunIn σ α)
    (x : Run α) : Prop :=
  ∀ s, good s → pre (view s).stack.current →
    (y.run.run s).1 = (x.run.run (view s)).1 ∧ view (y.run.run s).2 = (x.run.run (view s)).2 ∧ good (y.run.run s).2

namespace Mirrors

variable {α β : Type} {pre : Context Value → Prop} {x : Run α} {y : RunIn σ α}

theorem pure (a : α) : Mirrors view good pre (Pure.pure a) (Pure.pure a) := fun _ h _ => ⟨rfl, rfl, h⟩

theorem throw (halt : Halt) :
    Mirrors view good pre (throwThe Halt halt : RunIn σ α) (throwThe Halt halt) := fun _ h _ => ⟨rfl, rfl, h⟩

theorem mono {pre' : Context Value → Prop} (h : Mirrors view good pre y x) (implies : ∀ c, pre' c → pre c) :
    Mirrors view good pre' y x := fun s holds now => h s holds (implies _ now)

theorem bind (mid : α → Context Value → Prop) {f : α → Run β} {g : α → RunIn σ β}
    (first : Mirrors view good pre y x)
    (leads : ∀ m a t, pre m.stack.current → x.run.run m = (.ok a, t) → mid a t.stack.current)
    (next : ∀ a, Mirrors view good (mid a) (g a) (f a)) : Mirrors view good pre (y >>= g) (x >>= f) := by
  intro s holds now
  obtain ⟨same, moved, holds⟩ := first s holds now
  have leads := leads (view s)
  rw [run_bind, run_bind]
  generalize x.run.run (view s) = r at same moved leads ⊢
  generalize y.run.run s = q at same moved holds ⊢
  obtain ⟨result, m⟩ := r
  obtain ⟨_, t⟩ := q
  cases same
  cases moved
  cases result with
  | error e => exact ⟨rfl, rfl, holds⟩
  | ok a => exact next a t holds (leads a _ now rfl)

/-- What keeps the scopes can be followed by what needs them as they were. -/
theorem seq {f : α → Run β} {g : α → RunIn σ β} (keeps : x.Moves Machine.Keeps) (first : Mirrors view good pre y x)
    (next : ∀ a, Mirrors view good pre (g a) (f a)) : Mirrors view good pre (y >>= g) (x >>= f) := by
  refine first.bind (fun _ => pre) ?_ next
  intro m a t now ran
  have kept := (keeps m).stack
  rw [ran] at kept
  rwa [kept]

end Mirrors

/-- The manner does what is usual wherever no name shadows another, and a declaration finds its name free. -/
structure Manner.Follows (w : Manner σ) (view : σ → Machine) (good : σ → Prop) : Prop where
  step : ∀ {α : Type} {x : Run α}, x.Moves Machine.Keeps → Mirrors view good Context.Unshadowed (w.step x) x
  declare : ∀ name value, Mirrors view good (fun c => c.Unshadowed ∧ c.lookup name.name = none)
    (w.declare name value) (Run.declare name value)
  assign : ∀ name value, Mirrors view good Context.Unshadowed (w.assign name value) (Run.assign name value)
  inBlock : ∀ {pre : Context Value → Prop} {x : Run Flow} {y : RunIn σ Flow}, x.Moves Machine.Grows →
    Mirrors view good pre y x →
      Mirrors view good (fun c => c.Unshadowed ∧ pre c.push) (w.inBlock y) (Run.inBlock x)
  inCall : ∀ {pre : Context Value → Prop} {parameters : Scope Value} {x : Run Flow} {y : RunIn σ Flow},
    x.Moves Machine.Grows → Mirrors view good pre y x → pre (.ofParameters parameters) →
      Mirrors view good Context.Unshadowed (w.inCall parameters y) (Run.inCall parameters x)

variable {w : Manner σ} {p : Program} {invoke : Invocation} {invoke' : InvocationIn σ}

/-- Calls of the functions of a program keep the scopes and are mirrored. -/
structure Program.Calls (p : Program) (view : σ → Machine) (good : σ → Prop) (invoke : Invocation)
    (invoke' : InvocationIn σ) : Prop where
  keeps : ∀ f args, (invoke f args).Moves Machine.Keeps
  mirrors : ∀ f ∈ p.functions, ∀ args, Mirrors view good Context.Unshadowed (invoke' f args) (invoke f args)

theorem Program.call_mirrors (follows : w.Follows view good) (calls : p.Calls view good invoke invoke')
    (callee : Symbol) (args : List Value) :
    Mirrors view good Context.Unshadowed (p.callIn w invoke' callee args) (p.call invoke callee args) := by
  unfold callIn call
  cases Builtin.ofName? callee.name with
  | some builtin => exact follows.step (builtin.call_keeps args)
  | none =>
    cases found : p.function? callee.name with
    | some f => exact calls.mirrors f (mem_of_function? found) args
    | none => exact follows.step (.fail _)

mutual

theorem Expr.evaluate_mirrors (follows : w.Follows view good) (calls : p.Calls view good invoke invoke') (e : Expr) :
    Mirrors view good Context.Unshadowed (e.evaluateIn w p invoke') (e.evaluate p invoke) := by
  cases e with
  | literal value position => exact .pure _
  | var name => exact follows.step (.read name)
  | unary op position operand =>
    simp only [Expr.evaluateIn, Expr.evaluate]
    exact .seq (operand.evaluate_keeps calls.keeps) (Expr.evaluate_mirrors follows calls operand)
      fun _ => follows.step (.ofExcept _)
  | binary left op position right =>
    simp only [Expr.evaluateIn, Expr.evaluate]
    apply Mirrors.seq (left.evaluate_keeps calls.keeps) (Expr.evaluate_mirrors follows calls left)
    intro _
    exact .seq (right.evaluate_keeps calls.keeps) (Expr.evaluate_mirrors follows calls right)
      fun _ => follows.step (.ofExcept _)
  | call callee args =>
    simp only [Expr.evaluateIn, Expr.evaluate]
    exact .seq (Expr.evaluateAll_keeps calls.keeps args) (Expr.evaluateAll_mirrors follows calls args)
      fun values => Program.call_mirrors follows calls callee values

theorem Expr.evaluateAll_mirrors (follows : w.Follows view good) (calls : p.Calls view good invoke invoke')
    (es : List Expr) :
    Mirrors view good Context.Unshadowed (Expr.evaluateAllIn w p invoke' es) (Expr.evaluateAll p invoke es) := by
  cases es with
  | nil => exact .pure _
  | cons e es =>
    simp only [Expr.evaluateAllIn, Expr.evaluateAll]
    apply Mirrors.seq (e.evaluate_keeps calls.keeps) (Expr.evaluate_mirrors follows calls e)
    intro _
    exact .seq (Expr.evaluateAll_keeps calls.keeps es) (Expr.evaluateAll_mirrors follows calls es) fun _ => .pure _

end

theorem Expr.holds_mirrors (follows : w.Follows view good) (calls : p.Calls view good invoke invoke')
    (condition : Expr) :
    Mirrors view good Context.Unshadowed (condition.holdsIn w p invoke') (condition.holds p invoke) := by
  apply Mirrors.seq (condition.evaluate_keeps calls.keeps) (condition.evaluate_mirrors follows calls)
  intro v
  cases v with
  | bool b => exact .pure b
  | int | float | text | void => exact follows.step (.fail _)

/-! ### Statements -/

variable {names after : Context Meaning} {expected : Meaning}

/-- A statement that is well typed declares a name that is free, or it leaves the names as they are. -/
theorem Stmt.after_cases {s : Stmt} (h : s.after p expected names = some after) :
    (∃ name type value m, s = .declare name type value ∧ names.lookup name.name = none ∧
      after = names.declare name.name m) ∨ (∀ r, s.added r = ∅) ∧ after = names := by
  cases s with
  | declare name type value =>
    simp only [Stmt.after, Option.bind_eq_bind, Option.bind_eq_some_iff, Option.pure_def, guard_eq_some] at h
    obtain ⟨-, free, m, -, n, -, -, -, h⟩ := h
    cases h
    exact .inl ⟨name, type, value, m, rfl, Context.declares_eq_false_iff.mp free, rfl⟩
  | _ =>
    refine .inr ⟨fun _ => rfl, ?_⟩
    simp only [Stmt.after, Option.bind_eq_bind, Option.bind_eq_some_iff, Option.pure_def, Option.some_inj,
      exists_and_right] at h
    tauto

theorem Stmt.after_unshadowed {s : Stmt} (clear : names.Unshadowed) (h : s.after p expected names = some after) :
    after.Unshadowed := by
  obtain ⟨name, _, _, m, -, free, rfl⟩ | ⟨-, rfl⟩ := Stmt.after_cases h
  · exact clear.declare free m
  · exact clear

/-- Where a run comes by a statement with the names that checking found there, it goes on with those that checking
found behind it. -/
theorem Stmt.shape_execute {s : Stmt} {m t : Machine} {rounds : Nat} {flow : Flow}
    (keeps : ∀ f args, (invoke f args).Moves Machine.Keeps) (h : s.after p expected names = some after)
    (before : m.stack.current.shape = names.shape)
    (ran : (s.execute p invoke rounds).run.run m = (.ok flow, t)) : t.stack.current.shape = after.shape := by
  obtain ⟨⟨c, stack, adds⟩, -⟩ := Stmt.execute_adds (p := p) keeps rounds s m
  rw [ran] at stack adds
  obtain ⟨innermost, others⟩ := List.cons.inj before
  rw [stack, CallStack.current_modify, adds.shape]
  obtain ⟨name, type, value, _, rfl, -, rfl⟩ | ⟨none, rfl⟩ := Stmt.after_cases h
  · rw [Context.shape_declare, innermost]
    exact congrArg₂ List.cons Set.union_singleton others
  · rw [none, Set.union_empty]
    exact before

theorem Mirrors.repeatWhile {condition : Run Bool} {condition' : RunIn σ Bool} {body : Run Flow} {body' : RunIn σ Flow}
    (keeps : condition.Moves Machine.Keeps) (stays : body.Moves (Machine.Adds ∅))
    (first : Mirrors view good (fun c => c.shape = names.shape) condition' condition)
    (next : Mirrors view good (fun c => c.shape = names.shape) body' body) (rounds : Nat) :
    Mirrors view good (fun c => c.shape = names.shape) (RunIn.repeatWhile condition' body' rounds)
      (Run.repeatWhile condition body rounds) := by
  induction rounds with
  | zero => exact .throw _
  | succ rounds ih =>
    apply Mirrors.seq keeps first
    intro b
    cases b with
    | false => exact .pure _
    | true =>
      refine next.bind (fun _ c => c.shape = names.shape) ?_ ?_
      · intro m flow t before ran
        obtain ⟨⟨c, stack, adds⟩, -⟩ := stays m
        rw [ran] at stack
        rw [stack, CallStack.current_modify, adds.shape_eq]
        exact before
      · intro flow
        cases flow with
        | normal => exact ih
        | returned v => exact .pure _

/-- A block begins with the names around it, and none of its own. -/
theorem Manner.Follows.block (follows : w.Follows view good) (clear : names.Unshadowed) {body : Run Flow}
    {body' : RunIn σ Flow} (grows : body.Moves Machine.Grows)
    (h : Mirrors view good (fun c => c.shape = names.push.shape) body' body) :
    Mirrors view good (fun c => c.shape = names.shape) (w.inBlock body') (Run.inBlock body) := by
  apply (follows.inBlock grows h).mono
  intro c same
  refine ⟨clear.of_shape same, ?_⟩
  rw [Context.shape_push, Context.shape_push, same]

/-- Behind a condition the names are the same as before it. -/
theorem Expr.branch_mirrors (follows : w.Follows view good) (calls : p.Calls view good invoke invoke')
    (clear : names.Unshadowed) (condition : Expr) {yes no : Run Flow} {yes' no' : RunIn σ Flow}
    (first : Mirrors view good (fun c => c.shape = names.shape) yes' yes)
    (second : Mirrors view good (fun c => c.shape = names.shape) no' no) :
    Mirrors view good (fun c => c.shape = names.shape) (do if ← condition.holdsIn w p invoke' then yes' else no')
      (do if ← condition.holds p invoke then yes else no) := by
  apply Mirrors.seq (condition.holds_keeps calls.keeps)
    ((condition.holds_mirrors follows calls).mono fun c same => clear.of_shape same)
  intro b
  cases b with
  | true => exact first
  | false => exact second

end

section
variable {σ : Type} {view : σ → Machine} {good : σ → Prop} {w : Manner σ} {p : Program} {invoke : Invocation}
  {invoke' : InvocationIn σ} {expected : Meaning}

mutual

/-- A well typed statement is mirrored from where the names in scope are those that checking found there. -/
theorem Stmt.execute_mirrors (follows : w.Follows view good) (calls : p.Calls view good invoke invoke') (rounds : Nat)
    (s : Stmt) {names after : Context Meaning} (clear : names.Unshadowed) (h : s.after p expected names = some after) :
    Mirrors view good (fun c => c.shape = names.shape) (s.executeIn w p invoke' rounds)
      (s.execute p invoke rounds) := by
  have evaluated (e : Expr) : Mirrors view good (fun c => c.shape = names.shape) (e.evaluateIn w p invoke')
      (e.evaluate p invoke) := (e.evaluate_mirrors follows calls).mono fun c same => clear.of_shape same
  cases s with
  | declare name type value =>
    simp only [Stmt.after, Option.bind_eq_bind, Option.bind_eq_some_iff, guard_eq_some] at h
    obtain ⟨-, free, -⟩ := h
    simp only [Stmt.executeIn, Stmt.execute]
    apply Mirrors.seq (value.evaluate_keeps calls.keeps) (evaluated value)
    intro v
    refine .bind (fun _ _ => True) ((follows.declare name v).mono ?_) (fun _ _ _ _ _ => trivial) fun _ => .pure _
    intro c same
    refine ⟨clear.of_shape same, ?_⟩
    rw [Context.declares_eq_false_iff, Context.lookup_eq_none_iff] at free
    rwa [Context.lookup_eq_none_iff, same]
  | assign name value =>
    simp only [Stmt.executeIn, Stmt.execute]
    apply Mirrors.seq (value.evaluate_keeps calls.keeps) (evaluated value)
    intro v
    exact .bind (fun _ _ => True) ((follows.assign name v).mono fun c same => clear.of_shape same)
      (fun _ _ _ _ _ => trivial) fun _ => .pure _
  | ifElse condition body otherwise =>
    simp only [Stmt.after, Option.bind_eq_bind, Option.bind_eq_some_iff] at h
    obtain ⟨-, -, _, inside, _, others, -⟩ := h
    simp only [Stmt.executeIn, Stmt.execute]
    exact condition.branch_mirrors follows calls clear
      (follows.block clear (Stmt.executeAll_grows calls.keeps rounds body)
        (Stmt.executeAll_mirrors follows calls rounds body clear.push inside))
      (Else.execute_mirrors follows calls rounds otherwise clear others)
  | loop condition body =>
    simp only [Stmt.after, Option.bind_eq_bind, Option.bind_eq_some_iff] at h
    obtain ⟨-, -, _, inside, -⟩ := h
    have grows := Stmt.executeAll_grows (p := p) calls.keeps rounds body
    simp only [Stmt.executeIn, Stmt.execute]
    exact .repeatWhile (condition.holds_keeps calls.keeps) (.inBlock grows)
      ((condition.holds_mirrors follows calls).mono fun c same => clear.of_shape same)
      (follows.block clear grows (Stmt.executeAll_mirrors follows calls rounds body clear.push inside)) rounds
  | ret position value =>
    cases value with
    | none => exact .pure _
    | some e =>
      simp only [Stmt.executeIn, Stmt.execute]
      exact .seq (e.evaluate_keeps calls.keeps) (evaluated e) fun _ => .pure _
  | call callee args =>
    simp only [Stmt.executeIn, Stmt.execute]
    exact .seq (Expr.evaluate_keeps calls.keeps _) (evaluated _) fun _ => .pure _
  | block body =>
    simp only [Stmt.after, Option.bind_eq_bind, Option.bind_eq_some_iff] at h
    obtain ⟨_, inside, -⟩ := h
    simp only [Stmt.executeIn, Stmt.execute]
    exact follows.block clear (Stmt.executeAll_grows calls.keeps rounds body)
      (Stmt.executeAll_mirrors follows calls rounds body clear.push inside)

theorem Stmt.executeAll_mirrors (follows : w.Follows view good) (calls : p.Calls view good invoke invoke')
    (rounds : Nat) (ss : List Stmt) {names after : Context Meaning} (clear : names.Unshadowed)
    (h : Stmt.afterAll p expected ss names = some after) :
    Mirrors view good (fun c => c.shape = names.shape) (Stmt.executeAllIn w p invoke' rounds ss)
      (Stmt.executeAll p invoke rounds ss) := by
  cases ss with
  | nil => exact .pure _
  | cons s ss =>
    obtain ⟨between, first, rest⟩ := Option.bind_eq_some_iff.mp h
    simp only [Stmt.executeAllIn, Stmt.executeAll]
    apply (Stmt.execute_mirrors follows calls rounds s clear first).bind (fun _ c => c.shape = between.shape)
      fun m flow t => Stmt.shape_execute calls.keeps first
    intro flow
    cases flow with
    | normal => exact Stmt.executeAll_mirrors follows calls rounds ss (Stmt.after_unshadowed clear first) rest
    | returned v => exact .pure _

theorem Else.execute_mirrors (follows : w.Follows view good) (calls : p.Calls view good invoke invoke') (rounds : Nat)
    (o : Else) {names after : Context Meaning} (clear : names.Unshadowed) (h : o.after p expected names = some after) :
    Mirrors view good (fun c => c.shape = names.shape) (o.executeIn w p invoke' rounds)
      (o.execute p invoke rounds) := by
  cases o with
  | none => exact .pure _
  | last body =>
    simp only [Else.after, Option.bind_eq_bind, Option.bind_eq_some_iff] at h
    obtain ⟨_, inside, -⟩ := h
    simp only [Else.executeIn, Else.execute]
    exact follows.block clear (Stmt.executeAll_grows calls.keeps rounds body)
      (Stmt.executeAll_mirrors follows calls rounds body clear.push inside)
  | elseIf condition body otherwise =>
    simp only [Else.after, Option.bind_eq_bind, Option.bind_eq_some_iff] at h
    obtain ⟨-, -, _, inside, _, others, -⟩ := h
    simp only [Else.executeIn, Else.execute]
    exact condition.branch_mirrors follows calls clear
      (follows.block clear (Stmt.executeAll_grows calls.keeps rounds body)
        (Stmt.executeAll_mirrors follows calls rounds body clear.push inside))
      (Else.execute_mirrors follows calls rounds otherwise clear others)

end

/-! ### Functions and programs -/

/-- Statements that are well typed leave no name with a meaning in two scopes, also where one of them returns. -/
theorem Stmt.unshadowed_executeAll {ss : List Stmt} {names after : Context Meaning} {m t : Machine} {rounds : Nat}
    {flow : Flow} (keeps : ∀ f args, (invoke f args).Moves Machine.Keeps) (clear : names.Unshadowed)
    (h : Stmt.afterAll p expected ss names = some after) (before : m.stack.current.shape = names.shape)
    (ran : (Stmt.executeAll p invoke rounds ss).run.run m = (.ok flow, t)) : t.stack.current.Unshadowed := by
  induction ss generalizing names m with
  | nil =>
    cases ran
    exact clear.of_shape before
  | cons s ss ih =>
    obtain ⟨between, first, rest⟩ := Option.bind_eq_some_iff.mp h
    have later := Stmt.after_unshadowed clear first
    simp only [Stmt.executeAll, run_bind] at ran
    cases ended : (s.execute p invoke rounds).run.run m with | mk result u
    rw [ended] at ran
    cases result with
    | error e => cases ran
    | ok flow' =>
      have shape := Stmt.shape_execute keeps first before ended
      cases flow' with
      | normal => exact ih later rest shape ran
      | returned v =>
        cases ran
        exact later.of_shape shape

/-- Names that are paired with values of two kinds, as many of one as of the other. -/
theorem forall₂_zip {α β : Type} {as : List α} {bs : List β} (names : List String) (count : as.length = bs.length) :
    List.Forall₂ (fun (a : String × α) (b : String × β) => a.1 = b.1 ∧ True) (names.zip as) (names.zip bs) := by
  induction names generalizing as bs with
  | nil => exact .nil
  | cons name names ih =>
    cases as <;> cases bs
    · exact .nil
    · cases count
    · cases count
    · exact .cons ⟨rfl, trivial⟩ (ih (Nat.succ.inj count))

/-- The body of a function begins with its parameters, by whatever arguments they are given. -/
theorem Function.shape_arguments {f : Function} {ms : List Meaning} {args : List Value}
    (takes : p.Takes f.params ms) (count : args.length = f.params.length) :
    (Context.ofParameters (f.arguments args)).shape = (Context.ofParameters (f.meanings ms)).shape := by
  have related : (f.arguments args).Related (fun _ _ => True) (f.meanings ms) :=
    .ofList (forall₂_zip _ (count.trans takes.length_eq))
  have same : (f.arguments args).names = (f.meanings ms).names := by
    ext name
    exact Bool.eq_iff_iff.mp (related.contains name)
  rw [Context.shape_ofParameters, Context.shape_ofParameters, same]

theorem Program.invoke_mirrors (typed : p.WellTyped) (follows : w.Follows view good) (bound : Nat) :
    p.Calls view good (p.invoke bound) (p.invokeIn w bound) := by
  induction bound with
  | zero => exact ⟨p.invoke_keeps 0, fun _ _ _ => .throw _⟩
  | succ bound ih =>
    refine ⟨p.invoke_keeps (bound + 1), fun f mem args => ?_⟩
    simp only [invoke, invokeIn]
    split
    · -- What would come behind the failure is never run.
      apply Mirrors.bind (fun _ _ => False) (follows.step (.fail _))
      · intro m _ t _ ran
        cases ran
      · exact fun _ _ _ never => never.elim
    · rename_i count
      obtain ⟨-, ms, result, names, takes, -, body⟩ := typed.functions f mem
      have grows := Stmt.executeAll_grows (p := p) ih.keeps bound f.body
      refine .seq (.inCall grows) ?_ fun flow => follows.step (f.result_keeps flow)
      exact follows.inCall grows (Stmt.executeAll_mirrors follows ih bound f.body (.ofParameters _) body)
        (Function.shape_arguments takes (not_not.mp count))

/-- A manner that does what is usual without shadowing does so for well typed programs. -/
theorem Program.run_mirrors (typed : p.WellTyped) (follows : w.Follows view good) (bound : Nat) :
    Mirrors view good (fun c => c = .ofParameters .empty) (p.runIn w bound) (p.run bound) := by
  obtain ⟨names, statements⟩ := typed.statements
  have calls := p.invoke_mirrors typed follows bound
  have clear : (Context.ofParameters (Scope.empty : Scope Meaning)).Unshadowed := .ofParameters _
  have start (c : Context Value) (h : c = .ofParameters .empty) :
      c.shape = (Context.ofParameters (Scope.empty : Scope Meaning)).shape := by
    rw [h, Context.shape_ofParameters, Context.shape_ofParameters, Scope.names_empty, Scope.names_empty]
  unfold runIn run
  apply ((Stmt.executeAll_mirrors follows calls bound p.statements clear statements).mono start).bind
    (fun _ c => c.Unshadowed)
  · intro m flow t fresh
    exact Stmt.unshadowed_executeAll calls.keeps clear statements (start _ fresh)
  · intro flow
    cases flow with
    | returned v => exact follows.step (.fail _)
    | normal =>
      cases main : p.function? "main" with
      | none => exact .pure _
      | some f => exact .seq (calls.keeps f []) (calls.mirrors f (mem_of_function? main) []) fun _ => .pure _

end

/-! ### The manners -/

/-- Where no name is added nothing comes to be shadowed. -/
theorem Context.Unshadowed.of_adds {m t : Machine} (clear : m.stack.current.Unshadowed) (adds : m.Adds ∅ t) :
    t.stack.current.Unshadowed := by
  obtain ⟨⟨c, stack, adds⟩, -⟩ := adds
  rw [stack, CallStack.current_modify]
  exact clear.of_shape adds.shape_eq

theorem Manner.everywhere_follows : Manner.everywhere.Follows id fun _ => True where
  step _ := fun m _ _ => ⟨rfl, rfl, trivial⟩
  declare name value := fun m _ _ => ⟨rfl, rfl, trivial⟩
  assign name value := by
    intro m _ clear
    have clear : m.stack.current.Unshadowed := clear
    have same : (Run.assignEverywhere name value).run.run m = (Run.assign name value).run.run m := by
      rw [Run.run_assign, clear.assign?_eq]
      rfl
    exact ⟨congrArg Prod.fst same, congrArg Prod.snd same, trivial⟩
  inBlock _ h := fun m _ now => by
    obtain ⟨same, moved, -⟩ := h { m with stack := m.stack.modify .push } trivial (by simpa using now.2)
    exact ⟨same, congrArg (fun t : Machine => { t with stack := t.stack.modify .pop }) moved, trivial⟩
  inCall _ h pre := fun m _ _ => by
    obtain ⟨same, moved, -⟩ := h { m with stack := m.stack.enter _ } trivial pre
    exact ⟨same, congrArg (fun t : Machine => { t with stack := t.stack.exit }) moved, trivial⟩

namespace Watch

/-- All moments until then were without shadowing. -/
def Clear (w : Watch) : Prop := ∀ moment ∈ w.moments, moment.Unshadowed

theorem Clear.note {w : Watch} (h : w.Clear) {m : Machine} (now : m.stack.current.Unshadowed) :
    (w.note m none).Clear :=
  List.forall_mem_cons.mpr ⟨⟨now, nofun⟩, h⟩

/-- A step after which no name has a meaning in two scopes can be followed. -/
theorem follow_mirrors {α : Type} {x : Run α} {pre : Context Value → Prop}
    (h : ∀ m, pre m.stack.current → (x.run.run m).2.stack.current.Unshadowed) :
    Mirrors Watch.machine Clear pre (follow x) x :=
  fun w clear now => ⟨rfl, rfl, clear.note (h w.machine now)⟩

/-- A run may be started from elsewhere and the state be put in order afterwards, with a note of each. -/
theorem around_mirrors {α : Type} {x x' : Run α} {y y' : RunIn Watch α} {enter leave : Machine → Machine}
    {pre pre' : Context Value → Prop} (h : Mirrors Watch.machine Clear pre y x)
    (run : ∀ m, x'.run.run m = (x.run.run (enter m)).map id leave)
    (run' : ∀ w, y'.run.run w =
      (y.run.run (w.note (enter w.machine) none)).map id fun t => t.note (leave t.machine) none)
    (entering : ∀ m, pre' m.stack.current →
      (enter m).stack.current.Unshadowed ∧ pre (enter m).stack.current)
    (leaving : ∀ m, pre' m.stack.current → (x'.run.run m).2.stack.current.Unshadowed) :
    Mirrors Watch.machine Clear pre' y' x' := by
  intro w clear now
  obtain ⟨entered, inside⟩ := entering w.machine now
  obtain ⟨same, moved, clear⟩ := h (w.note (enter w.machine) none) (clear.note entered) inside
  have left : (leave (y.run.run (w.note (enter w.machine) none)).2.machine).stack.current.Unshadowed := by
    have left := leaving w.machine now
    rw [run] at left
    rw [moved]
    exact left
  rw [run, run']
  exact ⟨same, congrArg leave moved, clear.note left⟩

end Watch

theorem Manner.watched_follows : Manner.watched.Follows Watch.machine Watch.Clear where
  step keeps := Watch.follow_mirrors fun m clear => clear.of_adds (keeps m).adds
  declare name value := by
    rintro w clear ⟨now, free⟩
    refine ⟨rfl, rfl, ?_⟩
    have before : (w.note w.machine (some name.name)).Clear :=
      List.forall_mem_cons.mpr ⟨⟨now, fun _ mem => Option.some_inj.mp mem ▸ free⟩, clear⟩
    apply before.note
    change ((w.machine.stack.modify (·.declare name.name value)).current).Unshadowed
    rw [CallStack.current_modify]
    exact now.declare free value
  assign name value := Watch.follow_mirrors fun m clear => clear.of_adds (Run.Moves.assign name value m)
  inBlock grows h := by
    apply Watch.around_mirrors h (Run.run_inBlock _) fun _ => rfl
    · rintro m ⟨clear, inside⟩
      rw [CallStack.current_modify]
      exact ⟨clear.push, inside⟩
    · rintro m ⟨clear, -⟩
      exact clear.of_adds (Run.Moves.inBlock grows m)
  inCall grows h pre := by
    apply Watch.around_mirrors h (Run.run_inCall _ _) fun _ => rfl
    · exact fun m _ => ⟨.ofParameters _, pre⟩
    · exact fun m clear => clear.of_adds (Run.Moves.inCall grows m).adds

/-! ### Accepted programs -/

/-- How a program runs from the start with every assignment changing every meaning of its name. -/
def Program.outcomeEverywhere (p : Program) (bound : Nat) : Outcome :=
  let (ending, machine) := (p.runIn .everywhere bound).run.run .start
  ⟨ending, machine.output.toList⟩

/-- Accepted programs never shadow a name. At every moment of a run from the start no name has a meaning in two of
the scopes that are open, the parameters included, and a name that is about to be declared has none. So a run in
which every assignment changes every meaning of its name prints the same and ends alike. -/
theorem Program.never_shadows {p : Program} (accepted : p.checked = .ok ()) (bound : Nat) :
    (∀ moment ∈ ((p.runIn .watched bound).run.run .start).2.moments, moment.Unshadowed) ∧
      ((p.runIn .watched bound).run.run .start).1 = ((p.run bound).run.run .start).1 ∧
      ((p.runIn .watched bound).run.run .start).2.machine = ((p.run bound).run.run .start).2 ∧
      p.outcomeEverywhere bound = p.outcome bound := by
  have typed := wellTyped_of_checked accepted
  have fresh : Machine.start.stack.current = .ofParameters .empty := rfl
  have clear : Watch.start.Clear := List.forall_mem_singleton.mpr ⟨.ofParameters _, nofun⟩
  obtain ⟨ending, machine, moments⟩ := p.run_mirrors typed Manner.watched_follows bound .start clear fresh
  obtain ⟨ending', machine', -⟩ := p.run_mirrors typed Manner.everywhere_follows bound .start trivial fresh
  refine ⟨moments, ending, machine, ?_⟩
  exact congrArg₂ (fun ending (t : Machine) => Outcome.mk ending t.output.toList) ending' machine'

/-- A loop whose body declares `next` anew in each round, and changes `n` outside of it. -/
def counting : Program :=
  let n : Symbol := ⟨"n", .start⟩
  let next : Symbol := ⟨"next", .start⟩
  let number (k : Int64) : Expr := .literal (.int k none) .start
  ⟨[], [], [.declare n (.quantity .dimensionless) (number 0),
    .loop (.binary (.var n) .notEqual .start (number 2))
      [.declare next (.quantity .dimensionless) (.binary (.var n) .plus .start (number 1)),
        .assign n (.var next), .call ⟨"print", .start⟩ [.var n]]]⟩

theorem never_shadows_counting :
    (∀ moment ∈ ((counting.runIn .watched 9).run.run .start).2.moments, moment.Unshadowed) ∧
      (counting.outcomeEverywhere 9).printed = ["1", "2"] := by
  have accepted : counting.checked = .ok () := by decide +kernel
  obtain ⟨moments, -, -, everywhere⟩ := Program.never_shadows accepted 9
  refine ⟨moments, ?_⟩
  rw [everywhere]
  decide +kernel

end Mensura
