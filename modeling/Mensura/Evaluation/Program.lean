import Mensura.Evaluation.Machine

/-!
Running programs: expressions, statements and calls. Expressions and statements are worked out along their
structure, for a given meaning of the calls in them. That meaning takes a bound on how deep calls nest and on
the rounds of every loop; a run that meets the bound is told apart from a run that fails.
-/

namespace Mensura

/-- What it means to call a function with arguments. -/
abbrev Invocation := Function → List Value → Run Value

/-- How statements end: they go on to the next one, or they leave the function with a value. -/
inductive Flow where
  | normal
  | returned (value : Value)
  deriving DecidableEq, Repr

def Literal.toValue : Literal → Value
  | int n _ => .int n
  | float x _ => .float x
  | bool b => .bool b
  | text s => .text s

/-- What a built-in function does with its arguments. -/
def Builtin.call (callee : Builtin) (args : List Value) : Run Value :=
  match callee, args with
  | print, [v] => do
    Run.print v.display
    return .void
  | sqrt, [x] => answer (squareRoot x)
  | power, [base, exponent] => answer (raise base exponent)
  | _, _ => Run.fail (.unchecked (.builtinArguments callee args.length))
where
  answer (result : Except BuiltinFault Value) : Run Value :=
    Run.ofExcept (result.mapError (.builtin callee))

/-- Calls a function by its name. The built-in functions come before those of the program. -/
def Program.call (p : Program) (invoke : Invocation) (callee : Symbol) (args : List Value) : Run Value :=
  match Builtin.ofName? callee.name with
  | some builtin => builtin.call args
  | none =>
    match p.function? callee.name with
    | some f => invoke f args
    | none => Run.fail (.undefinedFunction callee)

mutual

/-- The value of an expression: operands and arguments are worked out from left to right, all of them. -/
def Expr.evaluate (p : Program) (invoke : Invocation) : Expr → Run Value
  | .literal value _ => return value.toValue
  | .var name => Run.read name
  | .unary op position operand => do
    let v ← operand.evaluate p invoke
    Run.ofExcept (op.apply position v)
  | .binary left op position right => do
    let l ← left.evaluate p invoke
    let r ← right.evaluate p invoke
    Run.ofExcept (op.apply position l r)
  | .call callee args => do
    let values ← Expr.evaluateAll p invoke args
    p.call invoke callee values

def Expr.evaluateAll (p : Program) (invoke : Invocation) : List Expr → Run (List Value)
  | [] => return []
  | e :: es => do
    let v ← e.evaluate p invoke
    return v :: (← Expr.evaluateAll p invoke es)

end

def Expr.holds (p : Program) (invoke : Invocation) (condition : Expr) : Run Bool := do
  match ← condition.evaluate p invoke with
  | .bool b => return b
  | v => Run.fail (.unchecked (.condition v.kind))

/-- Runs a body as long as a condition holds, at most `rounds` times. -/
def Run.repeatWhile (condition : Run Bool) (body : Run Flow) : (rounds : Nat) → Run Flow
  | 0 => Run.exhaust
  | rounds + 1 => do
    if ← condition then
      match ← body with
      | .normal => repeatWhile condition body rounds
      | .returned v => return .returned v
    else return .normal

/-- What relates two runs step by step relates their loops. -/
theorem Run.repeatWhile_related {R : {α : Type} → Run α → Run α → Prop}
    (pure : ∀ {α : Type} (a : α), R (Pure.pure a) (Pure.pure a)) (exhaust : R (Run.exhaust : Run Flow) Run.exhaust)
    (bind : ∀ {α β : Type} {x y : Run α} {f g : α → Run β}, R x y → (∀ a, R (f a) (g a)) → R (x >>= f) (y >>= g))
    {condition condition' : Run Bool} {body body' : Run Flow} (first : R condition condition') (next : R body body')
    (rounds : Nat) : R (repeatWhile condition body rounds) (repeatWhile condition' body' rounds) := by
  induction rounds with
  | zero => exact exhaust
  | succ rounds ih =>
    apply bind first
    intro b
    cases b with
    | false => exact pure _
    | true =>
      apply bind next
      intro flow
      cases flow with
      | normal => exact ih
      | returned v => exact pure _

mutual

def Stmt.execute (p : Program) (invoke : Invocation) (rounds : Nat) : Stmt → Run Flow
  | .declare name _ value => do
    let v ← value.evaluate p invoke
    Run.declare name v
    return .normal
  | .assign name value => do
    let v ← value.evaluate p invoke
    Run.assign name v
    return .normal
  | .ifElse condition body otherwise => do
    if ← condition.holds p invoke then Run.inBlock (Stmt.executeAll p invoke rounds body)
    else otherwise.execute p invoke rounds
  | .loop condition body =>
    Run.repeatWhile (condition.holds p invoke) (Run.inBlock (Stmt.executeAll p invoke rounds body)) rounds
  | .ret _ (some value) => do
    let v ← value.evaluate p invoke
    return .returned v
  | .ret _ none => return .returned .void
  | .call callee args => do
    let _ ← Expr.evaluate p invoke (.call callee args)
    return .normal
  | .block body => Run.inBlock (Stmt.executeAll p invoke rounds body)

/-- Statements one after the other, until one of them returns. -/
def Stmt.executeAll (p : Program) (invoke : Invocation) (rounds : Nat) : List Stmt → Run Flow
  | [] => return .normal
  | s :: ss => do
    match ← s.execute p invoke rounds with
    | .normal => Stmt.executeAll p invoke rounds ss
    | .returned v => return .returned v

def Else.execute (p : Program) (invoke : Invocation) (rounds : Nat) : Else → Run Flow
  | .none => return .normal
  | .last body => Run.inBlock (Stmt.executeAll p invoke rounds body)
  | .elseIf condition body otherwise => do
    if ← condition.holds p invoke then Run.inBlock (Stmt.executeAll p invoke rounds body)
    else otherwise.execute p invoke rounds

end

/-- The parameters of a function with their values. -/
def Function.arguments (f : Function) (args : List Value) : Scope Value :=
  .ofList ((f.params.map (·.name.name)).zip args)

/-- What a function gives back when its body has ended. Only a void function may end without a value. -/
def Function.result (f : Function) : Flow → Run Value
  | .returned v => return v
  | .normal => if f.returnType = .void then return .void else Run.fail (.missingReturn f.name.name)

namespace Program

/-- The meaning of calls that nest at most `bound` deep. -/
def invoke (p : Program) : (bound : Nat) → Invocation
  | 0 => fun _ _ => Run.exhaust
  | bound + 1 => fun f args => do
    if args.length ≠ f.params.length then
      Run.fail (.unchecked (.arguments f.name.name f.params.length args.length))
    let flow ← Run.inCall (f.arguments args) (Stmt.executeAll p (p.invoke bound) bound f.body)
    f.result flow

/-- The value of an expression, in the state that a run has left. -/
def evaluate (p : Program) (bound : Nat) (e : Expr) : Run Value := e.evaluate p (p.invoke bound)

/-- Runs the statements of a program, and then its function `main` if there is one. -/
def run (p : Program) (bound : Nat) : Run Unit := do
  match ← Stmt.executeAll p (p.invoke bound) bound p.statements with
  | .returned _ => Run.fail (.unchecked .returnOutsideFunction)
  | .normal =>
    match p.function? "main" with
    | some main => do
      let _ ← p.invoke bound main []
    | none => return ()

end Program

end Mensura
