import Mensura.Diagnostic
import Mensura.Proofs.Scope.Unshadowed

/-!
Running programs in different manners. What a run does is the same in all of them, but how it declares and assigns
names, and how it opens and closes scopes, may differ: so a run can take notes of the scopes, or assign in another
way. Main statement: to run a program in the usual manner is to run it.
-/

namespace Mensura

/-- Runs that keep a state of some other kind. -/
abbrev RunIn (σ : Type) := ExceptT Halt (StateM σ)

/-- What it means to call a function in such a run. -/
abbrev InvocationIn (σ : Type) := Function → List Value → RunIn σ Value

/-- How the steps of a run are carried out. -/
structure Manner (σ : Type) where
  /-- A step that leaves the scopes alone. -/
  step : {α : Type} → Run α → RunIn σ α
  declare : Symbol → Value → RunIn σ Unit
  assign : Symbol → Value → RunIn σ Unit
  inBlock : RunIn σ Flow → RunIn σ Flow
  inCall : Scope Value → RunIn σ Flow → RunIn σ Flow

/-- The usual manner. -/
def Manner.usual : Manner Machine := ⟨id, Run.declare, Run.assign, Run.inBlock, Run.inCall⟩

/-- Changes every meaning of a name. -/
def Run.assignEverywhere (name : Symbol) (value : Value) : Run Unit := do
  match (← get).stack.current.assignEverywhere? name.name value with
  | some c => modify fun m => { m with stack := m.stack.modify fun _ => c }
  | none => fail (.undefinedVariable name)

/-- The manner in which an assignment changes every meaning of its name in place of the nearest. -/
def Manner.everywhere : Manner Machine := { Manner.usual with assign := Run.assignEverywhere }

/-- What can be seen of the scopes at a moment of a run: the present context, and the name that is just about to be
declared in it. -/
structure Moment where
  context : Context Value
  declares : Option String

/-- No name has a meaning in two scopes, and the name that is to be declared has none yet. -/
def Moment.Unshadowed (m : Moment) : Prop :=
  m.context.Unshadowed ∧ ∀ name ∈ m.declares, m.context.lookup name = none

/-- A run that is watched: its state, and its moments until then from the latest on. -/
structure Watch where
  machine : Machine
  moments : List Moment

namespace Watch

/-- Takes note of the moment at which the run has come to a state. -/
def note (w : Watch) (machine : Machine) (declares : Option String) : Watch :=
  ⟨machine, ⟨machine.stack.current, declares⟩ :: w.moments⟩

def start : Watch := ⟨.start, [⟨Machine.start.stack.current, none⟩]⟩

/-- Takes a step, and then note of the moment. -/
def follow {α : Type} (x : Run α) : RunIn Watch α := fun w => (x.run.run w.machine).map id (w.note · none)

end Watch

/-- The usual manner under watch. Note is taken at every step and whenever the scopes may have changed. -/
def Manner.watched : Manner Watch where
  step := Watch.follow
  declare name value := fun w => (Watch.follow (Run.declare name value)).run.run (w.note w.machine (some name.name))
  assign name value := Watch.follow (Run.assign name value)
  inBlock body := fun w =>
    (body.run.run (w.note { w.machine with stack := w.machine.stack.modify .push } none)).map id fun t =>
      t.note { t.machine with stack := t.machine.stack.modify .pop } none
  inCall parameters body := fun w =>
    (body.run.run (w.note { w.machine with stack := w.machine.stack.enter parameters } none)).map id fun t =>
      t.note { t.machine with stack := t.machine.stack.exit } none

/-! ### Programs in a manner -/

section
variable {σ : Type} (w : Manner σ)

def Program.callIn (p : Program) (invoke : InvocationIn σ) (callee : Symbol) (args : List Value) : RunIn σ Value :=
  match Builtin.ofName? callee.name with
  | some builtin => w.step (builtin.call args)
  | none =>
    match p.function? callee.name with
    | some f => invoke f args
    | none => w.step (Run.fail (.undefinedFunction callee))

mutual

def Expr.evaluateIn (p : Program) (invoke : InvocationIn σ) : Expr → RunIn σ Value
  | .literal value _ => return value.toValue
  | .var name => w.step (Run.read name)
  | .unary op position operand => do
    let v ← operand.evaluateIn p invoke
    w.step (Run.ofExcept (op.apply position v))
  | .binary left op position right => do
    let l ← left.evaluateIn p invoke
    let r ← right.evaluateIn p invoke
    w.step (Run.ofExcept (op.apply position l r))
  | .call callee args => do
    let values ← Expr.evaluateAllIn p invoke args
    p.callIn w invoke callee values

def Expr.evaluateAllIn (p : Program) (invoke : InvocationIn σ) : List Expr → RunIn σ (List Value)
  | [] => return []
  | e :: es => do
    let v ← e.evaluateIn p invoke
    return v :: (← Expr.evaluateAllIn p invoke es)

end

def Expr.holdsIn (p : Program) (invoke : InvocationIn σ) (condition : Expr) : RunIn σ Bool := do
  match ← condition.evaluateIn w p invoke with
  | .bool b => return b
  | v => w.step (Run.fail (.unchecked (.condition v.kind)))

def RunIn.repeatWhile (condition : RunIn σ Bool) (body : RunIn σ Flow) : (rounds : Nat) → RunIn σ Flow
  | 0 => throw .exhausted
  | rounds + 1 => do
    if ← condition then
      match ← body with
      | .normal => repeatWhile condition body rounds
      | .returned v => return .returned v
    else return .normal

mutual

def Stmt.executeIn (p : Program) (invoke : InvocationIn σ) (rounds : Nat) : Stmt → RunIn σ Flow
  | .declare name _ value => do
    let v ← value.evaluateIn w p invoke
    w.declare name v
    return .normal
  | .assign name value => do
    let v ← value.evaluateIn w p invoke
    w.assign name v
    return .normal
  | .ifElse condition body otherwise => do
    if ← condition.holdsIn w p invoke then w.inBlock (Stmt.executeAllIn p invoke rounds body)
    else otherwise.executeIn p invoke rounds
  | .loop condition body =>
    RunIn.repeatWhile (condition.holdsIn w p invoke) (w.inBlock (Stmt.executeAllIn p invoke rounds body)) rounds
  | .ret _ (some value) => do
    let v ← value.evaluateIn w p invoke
    return .returned v
  | .ret _ none => return .returned .void
  | .call callee args => do
    let _ ← Expr.evaluateIn w p invoke (.call callee args)
    return .normal
  | .block body => w.inBlock (Stmt.executeAllIn p invoke rounds body)

def Stmt.executeAllIn (p : Program) (invoke : InvocationIn σ) (rounds : Nat) : List Stmt → RunIn σ Flow
  | [] => return .normal
  | s :: ss => do
    match ← s.executeIn p invoke rounds with
    | .normal => Stmt.executeAllIn p invoke rounds ss
    | .returned v => return .returned v

def Else.executeIn (p : Program) (invoke : InvocationIn σ) (rounds : Nat) : Else → RunIn σ Flow
  | .none => return .normal
  | .last body => w.inBlock (Stmt.executeAllIn p invoke rounds body)
  | .elseIf condition body otherwise => do
    if ← condition.holdsIn w p invoke then w.inBlock (Stmt.executeAllIn p invoke rounds body)
    else otherwise.executeIn p invoke rounds

end

namespace Program

def invokeIn (p : Program) : (bound : Nat) → InvocationIn σ
  | 0 => fun _ _ => throw .exhausted
  | bound + 1 => fun f args => do
    if args.length ≠ f.params.length then
      w.step (Run.fail (.unchecked (.arguments f.name.name f.params.length args.length)))
    let flow ← w.inCall (f.arguments args) (Stmt.executeAllIn w p (p.invokeIn bound) bound f.body)
    w.step (f.result flow)

/-- Runs a program in a manner. -/
def runIn (p : Program) (bound : Nat) : RunIn σ Unit := do
  match ← Stmt.executeAllIn w p (p.invokeIn w bound) bound p.statements with
  | .returned _ => w.step (Run.fail (.unchecked .returnOutsideFunction))
  | .normal =>
    match p.function? "main" with
    | some main => do
      let _ ← p.invokeIn w bound main []
    | none => return ()

end Program

end

/-! ### The usual manner -/

section
variable {p : Program} {invoke : Invocation}

theorem Program.callIn_usual (callee : Symbol) (args : List Value) :
    p.callIn .usual invoke callee args = p.call invoke callee args := rfl

mutual

theorem Expr.evaluateIn_usual (e : Expr) : e.evaluateIn .usual p invoke = e.evaluate p invoke := by
  cases e with
  | literal value position => rfl
  | var name => rfl
  | unary op position operand =>
    simp only [Expr.evaluateIn, Expr.evaluate, Expr.evaluateIn_usual operand]
    rfl
  | binary left op position right =>
    simp only [Expr.evaluateIn, Expr.evaluate, Expr.evaluateIn_usual left, Expr.evaluateIn_usual right]
    rfl
  | call callee args =>
    simp only [Expr.evaluateIn, Expr.evaluate, Expr.evaluateAllIn_usual args, Program.callIn_usual]

theorem Expr.evaluateAllIn_usual (es : List Expr) :
    Expr.evaluateAllIn .usual p invoke es = Expr.evaluateAll p invoke es := by
  cases es with
  | nil => rfl
  | cons e es => simp only [Expr.evaluateAllIn, Expr.evaluateAll, Expr.evaluateIn_usual e, Expr.evaluateAllIn_usual es]

end

theorem Expr.holdsIn_usual (condition : Expr) : condition.holdsIn .usual p invoke = condition.holds p invoke := by
  simp only [Expr.holdsIn, Expr.holds, Expr.evaluateIn_usual]
  rfl

theorem RunIn.repeatWhile_usual (condition : Run Bool) (body : Run Flow) (rounds : Nat) :
    RunIn.repeatWhile condition body rounds = Run.repeatWhile condition body rounds := by
  induction rounds with
  | zero => rfl
  | succ rounds ih =>
    simp only [RunIn.repeatWhile, ih]
    rfl

mutual

theorem Stmt.executeIn_usual (rounds : Nat) (s : Stmt) :
    s.executeIn .usual p invoke rounds = s.execute p invoke rounds := by
  cases s with
  | declare name type value =>
    simp only [Stmt.executeIn, Stmt.execute, Expr.evaluateIn_usual]
    rfl
  | assign name value =>
    simp only [Stmt.executeIn, Stmt.execute, Expr.evaluateIn_usual]
    rfl
  | ifElse condition body otherwise =>
    simp only [Stmt.executeIn, Stmt.execute, Expr.holdsIn_usual, Stmt.executeAllIn_usual rounds body,
      Else.executeIn_usual rounds otherwise]
    rfl
  | loop condition body =>
    simp only [Stmt.executeIn, Stmt.execute, Expr.holdsIn_usual, Stmt.executeAllIn_usual rounds body,
      RunIn.repeatWhile_usual]
    rfl
  | ret position value =>
    cases value with
    | none => rfl
    | some e => simp only [Stmt.executeIn, Stmt.execute, Expr.evaluateIn_usual]
  | call callee args => simp only [Stmt.executeIn, Stmt.execute, Expr.evaluateIn_usual]
  | block body =>
    simp only [Stmt.executeIn, Stmt.execute, Stmt.executeAllIn_usual rounds body]
    rfl

theorem Stmt.executeAllIn_usual (rounds : Nat) (ss : List Stmt) :
    Stmt.executeAllIn .usual p invoke rounds ss = Stmt.executeAll p invoke rounds ss := by
  cases ss with
  | nil => rfl
  | cons s ss =>
    simp only [Stmt.executeAllIn, Stmt.executeIn_usual rounds s, Stmt.executeAllIn_usual rounds ss]
    rfl

theorem Else.executeIn_usual (rounds : Nat) (o : Else) :
    o.executeIn .usual p invoke rounds = o.execute p invoke rounds := by
  cases o with
  | none => rfl
  | last body =>
    simp only [Else.executeIn, Else.execute, Stmt.executeAllIn_usual rounds body]
    rfl
  | elseIf condition body otherwise =>
    simp only [Else.executeIn, Else.execute, Expr.holdsIn_usual, Stmt.executeAllIn_usual rounds body,
      Else.executeIn_usual rounds otherwise]
    rfl

end

theorem Program.invokeIn_usual (p : Program) (bound : Nat) : p.invokeIn .usual bound = p.invoke bound := by
  induction bound with
  | zero => rfl
  | succ bound ih =>
    funext f args
    simp only [invokeIn, invoke, ih, Stmt.executeAllIn_usual]
    rfl

/-- Apart from its manner a run does what the program says. -/
theorem Program.runIn_usual (p : Program) (bound : Nat) : p.runIn .usual bound = p.run bound := by
  simp only [runIn, run, invokeIn_usual, Stmt.executeAllIn_usual]
  rfl

end

end Mensura
