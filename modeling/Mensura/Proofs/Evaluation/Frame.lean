import Mathlib.Data.Set.Insert
import Mensura.Evaluation.Program
import Mensura.Proofs.Result
import Mensura.Proofs.Scope.Related

/-!
What running leaves alone. An expression leaves every scope as it was: a call works in a context of its own, which
is gone when the call has ended, however it has ended. A statement works in the present context only, closes what
it opens, and adds no name to a scope but by a declaration. Main statement: this holds for every program, from
every state and on every way out.
-/

namespace Mensura

section
variable {α : Type}

/-- The names that have a meaning in a scope. -/
def Scope.names (s : Scope α) : Set String := {name | s.contains name = true}

theorem Scope.names_set (s : Scope α) (name : String) (value : α) : (s.set name value).names = insert name s.names := by
  ext m
  by_cases h : m = name <;> simp [names, contains, h]

/-- To set a name that is there already adds none. -/
theorem Scope.names_set_of_contains {s : Scope α} {name : String} {value : α} (h : s.contains name = true) :
    (s.set name value).names = s.names := by
  rw [names_set]
  exact Set.insert_eq_of_mem h

namespace Context

/-- The context `d` has the scopes of `c` with the same names in each of them, and in the innermost one the names
of `added` as well. -/
structure Adds (added : Set String) (c d : Context α) : Prop where
  parameters : d.parameters.names = c.parameters.names
  innermost : d.innermost.names = c.innermost.names ∪ added
  enclosing : d.enclosing.map Scope.names = c.enclosing.map Scope.names

variable {c d e : Context α} {A B : Set String}

theorem Adds.refl : c.Adds ∅ c := ⟨rfl, (Set.union_empty _).symm, rfl⟩

theorem Adds.trans (first : c.Adds A d) (next : d.Adds B e) : c.Adds (A ∪ B) e where
  parameters := next.parameters.trans first.parameters
  innermost := by rw [next.innermost, first.innermost, Set.union_assoc]
  enclosing := next.enclosing.trans first.enclosing

theorem Adds.declare (c : Context α) (name : String) (value : α) : c.Adds {name} (c.declare name value) where
  parameters := rfl
  innermost := by rw [Set.union_singleton]; exact c.innermost.names_set name value
  enclosing := rfl

/-- What happens in a block stays there. -/
theorem Adds.pop (h : c.push.Adds A d) : c.Adds ∅ d.pop := by
  obtain ⟨parameters, -, enclosing⟩ := h
  obtain ⟨dp, di, de⟩ := d
  cases de with
  | nil => cases enclosing
  | cons outer rest =>
    obtain ⟨first, others⟩ := List.cons.inj enclosing
    exact ⟨parameters, first.trans (Set.union_empty _).symm, others⟩

theorem names_assignNearest {name : String} {value : α} {ss ts : List (Scope α)}
    (h : assignNearest name value ss = some ts) : ts.map Scope.names = ss.map Scope.names := by
  induction ss generalizing ts with
  | nil => cases h
  | cons s ss ih =>
    unfold assignNearest at h
    split at h
    · rename_i found
      cases h
      simp [Scope.names_set_of_contains found]
    · obtain ⟨ts, assigned, rfl⟩ := Option.map_eq_some_iff.mp h
      simp [ih assigned]

/-- An assignment finds its name where it is, and adds none. -/
theorem Adds.assign {name : String} {value : α} (h : c.assign? name value = some d) : c.Adds ∅ d := by
  unfold assign? at h
  split at h
  · rename_i found
    cases h
    have same : (c.innermost.set name value).names = c.innermost.names := Scope.names_set_of_contains found
    exact ⟨rfl, same.trans (Set.union_empty _).symm, rfl⟩
  · split at h
    · rename_i outside
      cases h
      exact ⟨rfl, (Set.union_empty _).symm, names_assignNearest outside⟩
    · split at h
      · rename_i found
        cases h
        exact ⟨Scope.names_set_of_contains found, (Set.union_empty _).symm, rfl⟩
      · cases h

end Context

namespace CallStack

/-- The contexts that are not the present one: those of the calls that wait for the latest one to end, and the
one outside of functions. -/
def waiting (s : CallStack α) : List (Context α) :=
  match s.calls with
  | [] => []
  | _ :: callers => callers ++ [s.global]

theorem waiting_modify (f : Context α → Context α) (s : CallStack α) : (s.modify f).waiting = s.waiting := by
  obtain ⟨global, _ | ⟨c, cs⟩⟩ := s <;> rfl

theorem length_calls_modify (f : Context α → Context α) (s : CallStack α) :
    (s.modify f).calls.length = s.calls.length := by
  obtain ⟨global, _ | ⟨c, cs⟩⟩ := s <;> rfl

end CallStack

end

/-! ### What a run does to the state -/

/-- All scopes are as before, and what has been printed stays in front of what is printed next. -/
structure Machine.Keeps (m t : Machine) : Prop where
  stack : t.stack = m.stack
  printed : m.output.toList <+: t.output.toList

/-- The present context has the names of `added` in its innermost scope beside those that it had; otherwise there
are the same names in the same scopes, and nothing else has changed but values in this context. -/
structure Machine.Adds (added : Set String) (m t : Machine) : Prop where
  stack : ∃ c, t.stack = m.stack.modify (fun _ => c) ∧ m.stack.current.Adds added c
  printed : m.output.toList <+: t.output.toList

/-- Names may have been added, no matter which. -/
def Machine.Grows (m t : Machine) : Prop := ∃ added, m.Adds added t

namespace Machine

variable {m t u : Machine} {A B : Set String}

instance : IsPreorder Machine Keeps where
  refl _ := ⟨rfl, List.prefix_rfl⟩
  trans _ _ _ first next := ⟨next.stack.trans first.stack, first.printed.trans next.printed⟩

theorem Keeps.adds (h : m.Keeps t) : m.Adds ∅ t :=
  ⟨⟨m.stack.current, by rw [h.stack, CallStack.modify_eq_self rfl], .refl⟩, h.printed⟩

theorem Adds.trans (first : m.Adds A t) (next : t.Adds B u) : m.Adds (A ∪ B) u := by
  obtain ⟨⟨c, stack, names⟩, printed⟩ := first
  obtain ⟨⟨d, stack', names'⟩, printed'⟩ := next
  refine ⟨⟨d, ?_, ?_⟩, printed.trans printed'⟩
  · rw [stack', stack, CallStack.modify_modify]
    rfl
  · rw [stack, CallStack.current_modify] at names'
    exact names.trans names'

instance : IsPreorder Machine (Adds ∅) where
  refl m := Keeps.adds (refl m)
  trans _ _ _ first next := Set.union_empty (∅ : Set String) ▸ first.trans next

instance : IsPreorder Machine Grows where
  refl m := ⟨∅, Keeps.adds (refl m)⟩
  trans _ _ _ first next := ⟨_, first.choose_spec.trans next.choose_spec⟩

end Machine

/-- However the run ends, the state before it and the state after it are related. -/
def Run.Moves {α : Type} (R : Machine → Machine → Prop) (x : Run α) : Prop := ∀ m, R m (x.run.run m).2

namespace Run.Moves

variable {α β : Type} {R S : Machine → Machine → Prop} {x : Run α}

theorem mono (h : Moves R x) (implies : ∀ m t, R m t → S m t) : Moves S x := fun m => implies _ _ (h m)

section
variable [IsPreorder Machine R]

theorem pure (a : α) : Moves R (Pure.pure a) := fun m => refl m

theorem fail (error : RunError) : Moves R (Run.fail error : Run α) := fun m => refl m

theorem exhaust : Moves R (Run.exhaust : Run α) := fun m => refl m

theorem ofExcept (result : Except RunError α) : Moves R (Run.ofExcept result) := by
  cases result with
  | ok a => exact pure a
  | error e => exact fail e

theorem read (name : Symbol) : Moves R (Run.read name) := by
  intro m
  rw [run_read]
  cases m.stack.current.lookup name.name with
  | some v => exact pure v m
  | none => exact fail _ m

theorem bind {f : α → Run β} (first : Moves R x) (rest : ∀ a, Moves R (f a)) : Moves R (x >>= f) := by
  intro m
  have moved := first m
  rw [run_bind]
  generalize x.run.run m = r at moved ⊢
  obtain ⟨_ | a, t⟩ := r
  · exact moved
  · exact IsTrans.trans _ _ _ moved (rest a t)

theorem branch {c : Run Bool} {y : Run α} (condition : Moves R c) (yes : Moves R x) (no : Moves R y) :
    Moves R (do if ← c then x else y) := by
  apply bind condition
  intro b
  cases b with
  | true => exact yes
  | false => exact no

theorem repeatWhile {condition : Run Bool} {body : Run Flow} (first : Moves R condition) (next : Moves R body)
    (rounds : Nat) : Moves R (Run.repeatWhile condition body rounds) := by
  induction rounds with
  | zero => exact exhaust
  | succ rounds ih =>
    apply branch first
    · apply bind next
      intro flow
      cases flow with
      | normal => exact ih
      | returned v => exact pure _
    · exact pure _

end

theorem print (line : String) : Moves Machine.Keeps (Run.print line) := by
  intro m
  refine ⟨rfl, ?_⟩
  change m.output.toList <+: (m.output.push line).toList
  rw [Array.toList_push]
  exact List.prefix_append _ _

theorem declare (name : Symbol) (value : Value) : Moves (Machine.Adds {name.name}) (Run.declare name value) := by
  intro m
  have stack : (m.stack.modify (·.declare name.name value)) = m.stack.modify fun _ => _ := CallStack.modify_eq_const _
  exact ⟨⟨_, stack, .declare _ _ _⟩, List.prefix_rfl⟩

theorem assign (name : Symbol) (value : Value) : Moves (Machine.Adds ∅) (Run.assign name value) := by
  intro m
  rw [run_assign]
  cases assigned : m.stack.current.assign? name.name value with
  | some c => exact ⟨⟨c, rfl, .assign assigned⟩, List.prefix_rfl⟩
  | none => exact fail _ m

/-- A block closes what it opens, and takes the names with it that have been added in it. -/
theorem inBlock (h : Moves Machine.Grows x) : Moves (Machine.Adds ∅) (Run.inBlock x) := by
  intro m
  rw [run_inBlock]
  obtain ⟨added, ⟨c, stack, names⟩, printed⟩ := h { m with stack := m.stack.modify .push }
  rw [CallStack.current_modify] at names
  refine ⟨⟨c.pop, ?_, names.pop⟩, printed⟩
  change (x.run.run _).2.stack.modify Context.pop = _
  rw [stack, CallStack.modify_modify, CallStack.modify_modify]
  rfl

/-- A call leaves nothing of its context, and it has not touched any other. -/
theorem inCall {parameters : Scope Value} (h : Moves Machine.Grows x) :
    Moves Machine.Keeps (Run.inCall parameters x) := by
  intro m
  rw [run_inCall]
  obtain ⟨added, ⟨c, stack, -⟩, printed⟩ := h { m with stack := m.stack.enter parameters }
  refine ⟨?_, printed⟩
  change (x.run.run _).2.stack.exit = _
  rw [stack, CallStack.exit_modify_enter]

end Run.Moves

/-! ### Expressions and statements -/

theorem Builtin.call_keeps (callee : Builtin) (args : List Value) : Run.Moves Machine.Keeps (callee.call args) := by
  unfold call
  split
  · exact .bind (.print _) fun _ => .pure _
  · exact .ofExcept _
  · exact .ofExcept _
  · exact .fail _

section
variable {p : Program} {invoke : Invocation}

theorem Program.call_keeps (calls : ∀ f args, Run.Moves Machine.Keeps (invoke f args)) (callee : Symbol)
    (args : List Value) : Run.Moves Machine.Keeps (p.call invoke callee args) := by
  unfold call
  cases Builtin.ofName? callee.name with
  | some builtin => exact builtin.call_keeps args
  | none =>
    cases p.function? callee.name with
    | some f => exact calls f args
    | none => exact .fail _

mutual

theorem Expr.evaluate_keeps (calls : ∀ f args, Run.Moves Machine.Keeps (invoke f args)) (e : Expr) :
    Run.Moves Machine.Keeps (e.evaluate p invoke) := by
  cases e with
  | literal value position => exact .pure _
  | var name => exact .read name
  | unary op position operand =>
    simp only [Expr.evaluate]
    exact .bind (Expr.evaluate_keeps calls operand) fun _ => .ofExcept _
  | binary left op position right =>
    simp only [Expr.evaluate]
    apply Run.Moves.bind (Expr.evaluate_keeps calls left)
    intro l
    exact .bind (Expr.evaluate_keeps calls right) fun _ => .ofExcept _
  | call callee args =>
    simp only [Expr.evaluate]
    exact .bind (Expr.evaluateAll_keeps calls args) fun vs => Program.call_keeps calls callee vs

theorem Expr.evaluateAll_keeps (calls : ∀ f args, Run.Moves Machine.Keeps (invoke f args)) (es : List Expr) :
    Run.Moves Machine.Keeps (Expr.evaluateAll p invoke es) := by
  cases es with
  | nil => exact .pure _
  | cons e es =>
    simp only [Expr.evaluateAll]
    apply Run.Moves.bind (Expr.evaluate_keeps calls e)
    intro v
    exact .bind (Expr.evaluateAll_keeps calls es) fun _ => .pure _

end

/-- The names that a statement adds to the innermost scope, by the way in which it has ended: a declaration that
went well adds its name, and nothing else adds any. -/
def Stmt.added : Stmt → Except Halt Flow → Set String
  | .declare name _ _, .ok _ => {name.name}
  | _, _ => ∅

theorem Expr.holds_keeps (calls : ∀ f args, Run.Moves Machine.Keeps (invoke f args)) (condition : Expr) :
    Run.Moves Machine.Keeps (condition.holds p invoke) := by
  apply Run.Moves.bind (Expr.evaluate_keeps calls condition)
  intro v
  cases v with
  | bool b => exact .pure b
  | int | float | text | void => exact .fail _

theorem Stmt.declare_adds (calls : ∀ f args, Run.Moves Machine.Keeps (invoke f args)) (rounds : Nat) (name : Symbol)
    (type : Ty) (value : Expr) (m : Machine) :
    let r := ((Stmt.declare name type value).execute p invoke rounds).run.run m
    m.Adds ((Stmt.declare name type value).added r.1) r.2 := by
  have kept := Expr.evaluate_keeps (p := p) calls value m
  simp only [Stmt.execute]
  rw [run_bind]
  generalize (value.evaluate p invoke).run.run m = r at kept ⊢
  obtain ⟨_ | v, t⟩ := r
  · exact kept.adds
  · have added := kept.adds.trans (Run.Moves.declare name v t)
    rw [Set.empty_union] at added
    exact added

mutual

theorem Stmt.execute_adds (calls : ∀ f args, Run.Moves Machine.Keeps (invoke f args)) (rounds : Nat) (s : Stmt)
    (m : Machine) :
    m.Adds (s.added ((s.execute p invoke rounds).run.run m).1) ((s.execute p invoke rounds).run.run m).2 := by
  have quiet {α : Type} {x : Run α} (h : Run.Moves Machine.Keeps x) : Run.Moves (Machine.Adds ∅) x :=
    h.mono fun _ _ => Machine.Keeps.adds
  cases s with
  | declare name type value => exact Stmt.declare_adds calls rounds name type value m
  | assign name value =>
    refine (?_ : Run.Moves (Machine.Adds ∅) _) m
    simp only [Stmt.execute]
    apply Run.Moves.bind (quiet (Expr.evaluate_keeps calls value))
    intro v
    exact .bind (.assign name v) fun _ => .pure _
  | ifElse condition body otherwise =>
    refine (?_ : Run.Moves (Machine.Adds ∅) _) m
    simp only [Stmt.execute]
    exact .branch (quiet (Expr.holds_keeps calls condition)) (.inBlock (Stmt.executeAll_grows calls rounds body))
      (Else.execute_adds calls rounds otherwise)
  | loop condition body =>
    refine (?_ : Run.Moves (Machine.Adds ∅) _) m
    simp only [Stmt.execute]
    exact .repeatWhile (quiet (Expr.holds_keeps calls condition))
      (.inBlock (Stmt.executeAll_grows calls rounds body)) rounds
  | ret position value =>
    refine (?_ : Run.Moves (Machine.Adds ∅) _) m
    cases value with
    | some e =>
      simp only [Stmt.execute]
      exact .bind (quiet (Expr.evaluate_keeps calls e)) fun _ => .pure _
    | none => exact .pure _
  | call callee args =>
    refine (?_ : Run.Moves (Machine.Adds ∅) _) m
    simp only [Stmt.execute]
    exact .bind (quiet (Expr.evaluate_keeps calls (.call callee args))) fun _ => .pure _
  | block body =>
    refine (?_ : Run.Moves (Machine.Adds ∅) _) m
    simp only [Stmt.execute]
    exact .inBlock (Stmt.executeAll_grows calls rounds body)

theorem Stmt.executeAll_grows (calls : ∀ f args, Run.Moves Machine.Keeps (invoke f args)) (rounds : Nat)
    (ss : List Stmt) : Run.Moves Machine.Grows (Stmt.executeAll p invoke rounds ss) := by
  cases ss with
  | nil => exact .pure _
  | cons s ss =>
    simp only [Stmt.executeAll]
    have first : Run.Moves Machine.Grows (s.execute p invoke rounds) :=
      fun m => ⟨_, Stmt.execute_adds calls rounds s m⟩
    apply Run.Moves.bind first
    intro flow
    cases flow with
    | normal => exact Stmt.executeAll_grows calls rounds ss
    | returned v => exact .pure _

theorem Else.execute_adds (calls : ∀ f args, Run.Moves Machine.Keeps (invoke f args)) (rounds : Nat) (o : Else) :
    Run.Moves (Machine.Adds ∅) (o.execute p invoke rounds) := by
  cases o with
  | none => exact .pure _
  | last body =>
    simp only [Else.execute]
    exact .inBlock (Stmt.executeAll_grows calls rounds body)
  | elseIf condition body otherwise =>
    simp only [Else.execute]
    refine .branch ?_ (.inBlock (Stmt.executeAll_grows calls rounds body)) (Else.execute_adds calls rounds otherwise)
    exact (Expr.holds_keeps calls condition).mono fun _ _ => Machine.Keeps.adds

end

end

theorem Function.result_keeps (f : Function) (flow : Flow) : Run.Moves Machine.Keeps (f.result flow) := by
  cases flow with
  | returned v => exact .pure v
  | normal =>
    simp only [Function.result]
    split
    · exact .pure _
    · exact .fail _

namespace Program

/-- A call leaves everything as it was but for what has been printed. -/
theorem invoke_keeps (p : Program) (bound : Nat) (f : Function) (args : List Value) :
    Run.Moves Machine.Keeps (p.invoke bound f args) := by
  induction bound generalizing f args with
  | zero => exact .exhaust
  | succ bound ih =>
    have body := Stmt.executeAll_grows (p := p) ih bound f.body
    simp only [invoke]
    split
    · exact .bind (.fail _) fun _ => .bind (.inCall body) f.result_keeps
    · exact .bind (.inCall body) f.result_keeps

/-- What running leaves alone, for every program, from every state and on every way out. An expression changes no
scope and only adds to what has been printed. A statement leaves as many calls and as many open scopes as there
were; it changes the present context only, and the names in its scopes stay the same, but that a declaration
which goes well adds its name to the innermost one. -/
theorem frame (p : Program) (bound : Nat) (m : Machine) :
    (∀ e : Expr,
      let t := ((p.evaluate bound e).run.run m).2
      t.stack = m.stack ∧ m.output.toList <+: t.output.toList) ∧
    ∀ (s : Stmt) (rounds : Nat),
      let r := (s.execute p (p.invoke bound) rounds).run.run m
      let t := r.2
      t.stack.calls.length = m.stack.calls.length ∧
        t.stack.waiting = m.stack.waiting ∧
        t.stack.current.enclosing.length = m.stack.current.enclosing.length ∧
        m.stack.current.Adds (s.added r.1) t.stack.current := by
  constructor
  · intro e
    obtain ⟨stack, printed⟩ := Expr.evaluate_keeps (p := p) (p.invoke_keeps bound) e m
    exact ⟨stack, printed⟩
  · intro s rounds
    obtain ⟨⟨c, stack, names⟩, -⟩ := Stmt.execute_adds (p := p) (p.invoke_keeps bound) rounds s m
    have scopes := congrArg List.length names.enclosing
    rw [List.length_map, List.length_map] at scopes
    dsimp only
    rw [stack, CallStack.current_modify]
    exact ⟨CallStack.length_calls_modify _ _, CallStack.waiting_modify _ _, scopes, names⟩

end Program

end Mensura
