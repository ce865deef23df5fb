import Mensura.Evaluation.Program

/-!
Rewriting inside a program. Statements that stand one after the other somewhere in a program, in a branch, in the body
of a loop or in a block at any depth, are replaced by others. Main statement: if these do the same wherever they are
run, then the whole program does, from every state and within every bound.
-/

namespace Mensura

/-! ### Replacing statements -/

section
variable (R : List Stmt → List Stmt → Prop)

mutual

/-- Somewhere inside a statement, statements are replaced by others that `R` has for them. -/
inductive Stmt.Rewrites : Stmt → Stmt → Prop where
  | branch {condition : Expr} {body body' : List Stmt} {otherwise : Else} (inside : Stmt.AllRewrite body body') :
      Stmt.Rewrites (.ifElse condition body otherwise) (.ifElse condition body' otherwise)
  | otherwise {condition : Expr} {body : List Stmt} {others others' : Else} (inside : Else.Rewrites others others') :
      Stmt.Rewrites (.ifElse condition body others) (.ifElse condition body others')
  | loop {condition : Expr} {body body' : List Stmt} (inside : Stmt.AllRewrite body body') :
      Stmt.Rewrites (.loop condition body) (.loop condition body')
  | block {body body' : List Stmt} (inside : Stmt.AllRewrite body body') :
      Stmt.Rewrites (.block body) (.block body')

/-- The statements that are replaced may be all from some place on. -/
inductive Stmt.AllRewrite : List Stmt → List Stmt → Prop where
  | here {ss ss' : List Stmt} (replaced : R ss ss') : Stmt.AllRewrite ss ss'
  | first {s s' : Stmt} {ss : List Stmt} (inside : Stmt.Rewrites s s') : Stmt.AllRewrite (s :: ss) (s' :: ss)
  | later {s : Stmt} {ss ss' : List Stmt} (behind : Stmt.AllRewrite ss ss') : Stmt.AllRewrite (s :: ss) (s :: ss')

inductive Else.Rewrites : Else → Else → Prop where
  | last {body body' : List Stmt} (inside : Stmt.AllRewrite body body') :
      Else.Rewrites (.last body) (.last body')
  | body {condition : Expr} {body body' : List Stmt} {others : Else} (inside : Stmt.AllRewrite body body') :
      Else.Rewrites (.elseIf condition body others) (.elseIf condition body' others)
  | otherwise {condition : Expr} {body : List Stmt} {others others' : Else} (inside : Else.Rewrites others others') :
      Else.Rewrites (.elseIf condition body others) (.elseIf condition body others')

end

/-- Statements are replaced in the body of a function or outside of the functions. -/
inductive Program.Rewrites : Program → Program → Prop where
  | body {front behind : List Function} {f : Function} {body : List Stmt} {units : List UnitDeclaration}
      {statements : List Stmt} (inside : Stmt.AllRewrite R f.body body) :
      Program.Rewrites ⟨front ++ f :: behind, units, statements⟩
        ⟨front ++ { f with body := body } :: behind, units, statements⟩
  | statements {functions : List Function} {units : List UnitDeclaration} {ss ss' : List Stmt}
      (inside : Stmt.AllRewrite R ss ss') : Program.Rewrites ⟨functions, units, ss⟩ ⟨functions, units, ss'⟩

end

/-! ### What statements do -/

/-- Statements do what others do, in whatever program, and however deep its calls may nest. -/
def Stmt.AllRunAs (ss' ss : List Stmt) : Prop :=
  ∀ (p : Program) (bound rounds : Nat),
    Stmt.executeAll p (p.invoke bound) rounds ss' = Stmt.executeAll p (p.invoke bound) rounds ss

section
variable {R : List Stmt → List Stmt → Prop} {p : Program} {bound : Nat}

mutual

theorem Stmt.Rewrites.execute (alike : ∀ ss ss', R ss ss' → Stmt.AllRunAs ss' ss) (rounds : Nat) {s s' : Stmt}
    (rewritten : Stmt.Rewrites R s s') :
    s'.execute p (p.invoke bound) rounds = s.execute p (p.invoke bound) rounds := by
  cases rewritten with
  | branch inside => rw [Stmt.execute, Stmt.execute, Stmt.AllRewrite.executeAll alike rounds inside]
  | otherwise inside => rw [Stmt.execute, Stmt.execute, Else.Rewrites.execute alike rounds inside]
  | loop inside => rw [Stmt.execute, Stmt.execute, Stmt.AllRewrite.executeAll alike rounds inside]
  | block inside => rw [Stmt.execute, Stmt.execute, Stmt.AllRewrite.executeAll alike rounds inside]

theorem Stmt.AllRewrite.executeAll (alike : ∀ ss ss', R ss ss' → Stmt.AllRunAs ss' ss) (rounds : Nat)
    {ss ss' : List Stmt} (rewritten : Stmt.AllRewrite R ss ss') :
    Stmt.executeAll p (p.invoke bound) rounds ss' = Stmt.executeAll p (p.invoke bound) rounds ss := by
  cases rewritten with
  | here replaced => exact alike _ _ replaced p bound rounds
  | first inside => rw [Stmt.executeAll, Stmt.executeAll, Stmt.Rewrites.execute alike rounds inside]
  | later behind => rw [Stmt.executeAll, Stmt.executeAll, Stmt.AllRewrite.executeAll alike rounds behind]

theorem Else.Rewrites.execute (alike : ∀ ss ss', R ss ss' → Stmt.AllRunAs ss' ss) (rounds : Nat) {o o' : Else}
    (rewritten : Else.Rewrites R o o') :
    o'.execute p (p.invoke bound) rounds = o.execute p (p.invoke bound) rounds := by
  cases rewritten with
  | last inside => rw [Else.execute, Else.execute, Stmt.AllRewrite.executeAll alike rounds inside]
  | body inside => rw [Else.execute, Else.execute, Stmt.AllRewrite.executeAll alike rounds inside]
  | otherwise inside => rw [Else.execute, Else.execute, Else.Rewrites.execute alike rounds inside]

end

theorem Stmt.AllRewrite.allRunAs (alike : ∀ ss ss', R ss ss' → Stmt.AllRunAs ss' ss) {ss ss' : List Stmt}
    (rewritten : Stmt.AllRewrite R ss ss') : Stmt.AllRunAs ss' ss :=
  fun _ _ rounds => rewritten.executeAll alike rounds

end

/-! ### The meaning of calls -/

section
variable {p q : Program} {invoke invoke' : Invocation}

mutual

/-- A program matters to an expression for what the calls in it mean. -/
theorem Expr.evaluate_congr (calls : q.call invoke' = p.call invoke) (e : Expr) :
    e.evaluate q invoke' = e.evaluate p invoke := by
  cases e with
  | literal value position => rfl
  | var name => rfl
  | unary op position operand => rw [Expr.evaluate, Expr.evaluate, Expr.evaluate_congr calls operand]
  | binary left op position right =>
    rw [Expr.evaluate, Expr.evaluate, Expr.evaluate_congr calls left, Expr.evaluate_congr calls right]
  | call callee args => rw [Expr.evaluate, Expr.evaluate, Expr.evaluateAll_congr calls args, calls]

theorem Expr.evaluateAll_congr (calls : q.call invoke' = p.call invoke) (es : List Expr) :
    Expr.evaluateAll q invoke' es = Expr.evaluateAll p invoke es := by
  cases es with
  | nil => rfl
  | cons e es =>
    rw [Expr.evaluateAll, Expr.evaluateAll, Expr.evaluate_congr calls e, Expr.evaluateAll_congr calls es]

end

theorem Expr.holds_congr (calls : q.call invoke' = p.call invoke) (condition : Expr) :
    condition.holds q invoke' = condition.holds p invoke := by
  rw [Expr.holds, Expr.holds, Expr.evaluate_congr calls condition]

mutual

theorem Stmt.execute_congr (calls : q.call invoke' = p.call invoke) (rounds : Nat) (s : Stmt) :
    s.execute q invoke' rounds = s.execute p invoke rounds := by
  cases s with
  | declare name type value | assign name value =>
    rw [Stmt.execute, Stmt.execute, Expr.evaluate_congr calls value]
  | ifElse condition body otherwise =>
    rw [Stmt.execute, Stmt.execute, Expr.holds_congr calls condition, Stmt.executeAll_congr calls rounds body,
      Else.execute_congr calls rounds otherwise]
  | loop condition body =>
    rw [Stmt.execute, Stmt.execute, Expr.holds_congr calls condition, Stmt.executeAll_congr calls rounds body]
  | ret position value =>
    cases value with
    | none => rfl
    | some e => rw [Stmt.execute, Stmt.execute, Expr.evaluate_congr calls e]
  | call callee args => rw [Stmt.execute, Stmt.execute, Expr.evaluate_congr calls (.call callee args)]
  | block body => rw [Stmt.execute, Stmt.execute, Stmt.executeAll_congr calls rounds body]

theorem Stmt.executeAll_congr (calls : q.call invoke' = p.call invoke) (rounds : Nat) (ss : List Stmt) :
    Stmt.executeAll q invoke' rounds ss = Stmt.executeAll p invoke rounds ss := by
  cases ss with
  | nil => rfl
  | cons s ss =>
    rw [Stmt.executeAll, Stmt.executeAll, Stmt.execute_congr calls rounds s, Stmt.executeAll_congr calls rounds ss]

theorem Else.execute_congr (calls : q.call invoke' = p.call invoke) (rounds : Nat) (o : Else) :
    o.execute q invoke' rounds = o.execute p invoke rounds := by
  cases o with
  | none => rfl
  | last body => rw [Else.execute, Else.execute, Stmt.executeAll_congr calls rounds body]
  | elseIf condition body otherwise =>
    rw [Else.execute, Else.execute, Expr.holds_congr calls condition, Stmt.executeAll_congr calls rounds body,
      Else.execute_congr calls rounds otherwise]

end

end

/-! ### Programs -/

/-- Two functions differ in their bodies at most, and these do the same. -/
structure Function.RunsAs (g f : Function) : Prop where
  rest : g = { f with body := g.body }
  body : Stmt.AllRunAs g.body f.body

theorem Function.RunsAs.refl (f : Function) : f.RunsAs f := ⟨rfl, fun _ _ _ => rfl⟩

/-- The functions of two programs do the same under the same names, and so do the statements outside of them. -/
structure Program.RunsAs (q p : Program) : Prop where
  functions : ∀ name, Option.Rel Function.RunsAs (q.function? name) (p.function? name)
  statements : Stmt.AllRunAs q.statements p.statements

namespace Program

variable {p q : Program} {R : List Stmt → List Stmt → Prop}

theorem RunsAs.call_of (alike : q.RunsAs p) {invoke invoke' : Invocation}
    (same : ∀ {g f : Function}, g.RunsAs f → ∀ args, invoke' g args = invoke f args) :
    q.call invoke' = p.call invoke := by
  funext callee args
  have found := alike.functions callee.name
  unfold call
  generalize q.function? callee.name = g, p.function? callee.name = f at found ⊢
  cases Builtin.ofName? callee.name with
  | some builtin => rfl
  | none =>
    cases found with
    | none => rfl
    | some functions => exact same functions args

/-- Calls mean the same however deep they nest. -/
theorem RunsAs.invoke (alike : q.RunsAs p) (bound : Nat) {g f : Function} (same : g.RunsAs f) (args : List Value) :
    q.invoke bound g args = p.invoke bound f args := by
  induction bound generalizing g f args with
  | zero => rfl
  | succ bound ih =>
    -- first the calls in the body, which nest less deep, then the body itself
    have body : Stmt.executeAll q (q.invoke bound) bound g.body = Stmt.executeAll p (p.invoke bound) bound f.body :=
      (Stmt.executeAll_congr (alike.call_of ih) bound g.body).trans (same.body p bound bound)
    obtain ⟨name, params, returnType, inner⟩ := g
    cases same.rest
    simp only [Program.invoke, body]
    rfl

theorem RunsAs.call (alike : q.RunsAs p) (bound : Nat) : q.call (q.invoke bound) = p.call (p.invoke bound) :=
  alike.call_of (alike.invoke bound)

theorem RunsAs.evaluate (alike : q.RunsAs p) (bound : Nat) (e : Expr) : q.evaluate bound e = p.evaluate bound e :=
  e.evaluate_congr (alike.call bound)

theorem RunsAs.run (alike : q.RunsAs p) (bound : Nat) : q.run bound = p.run bound := by
  have statements : Stmt.executeAll q (q.invoke bound) bound q.statements =
      Stmt.executeAll p (p.invoke bound) bound p.statements :=
    (Stmt.executeAll_congr (alike.call bound) bound q.statements).trans (alike.statements p bound bound)
  have found := alike.functions "main"
  unfold Program.run
  rw [statements]
  generalize q.function? "main" = g, p.function? "main" = f at found ⊢
  cases found with
  | none => rfl
  | some same =>
    have called := alike.invoke bound same []
    simp only [called]

/-- A program does the same with other statements in it that do the same. -/
theorem Rewrites.runsAs (alike : ∀ ss ss', R ss ss' → Stmt.AllRunAs ss' ss) (rewritten : p.Rewrites R q) :
    q.RunsAs p := by
  have unchanged (f : Option Function) : Option.Rel Function.RunsAs f f := by
    cases f with
    | none => exact .none
    | some f => exact .some (.refl f)
  cases rewritten with
  | @body front behind f body units statements inside =>
    refine ⟨fun name => ?_, fun _ _ _ => rfl⟩
    simp only [function?, List.find?_append, List.find?_cons]
    cases front.find? (·.name.name == name) with
    | some g => exact unchanged _
    | none =>
      cases f.name.name == name with
      | true => exact .some ⟨rfl, inside.allRunAs alike⟩
      | false => exact unchanged _
  | statements inside => exact ⟨fun name => unchanged _, inside.allRunAs alike⟩

end Program

end Mensura
