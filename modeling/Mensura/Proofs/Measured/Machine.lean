import Mensura.Evaluation.Program
import Mensura.Proofs.Typing.Meaning

/-!
Runs that keep account of dimensions. Every number carries a vector of powers of base units over the integers,
and every step asks for the dimensions it needs: sums and comparisons take one dimension, roots take even powers,
exponents have none, and a variable, an argument or a result is what its type says. A run that does not get what
it asks for ends as a misfit. Apart from that these runs do, step by step, what runs without dimensions do.
-/

namespace Mensura

/-- A value, with its dimension if it is a number. -/
inductive Measured where
  | int (n : Int64) (dimension : Dimension)
  | float (x : Float) (dimension : Dimension)
  | bool (b : Bool)
  | text (s : String)
  | void

namespace Measured

/-- What is left without the dimension. -/
def value : Measured → Value
  | int n _ => .int n
  | float x _ => .float x
  | bool b => .bool b
  | text s => .text s
  | void => .void

def dimension? : Measured → Option Dimension
  | int _ d | float _ d => some d
  | _ => none

/-- A value that gets a dimension if it is a number. -/
def attach (d : Dimension) : Value → Measured
  | .int n => int n d
  | .float x => float x d
  | .bool b => bool b
  | .text s => text s
  | .void => void

def meaning : Measured → Meaning
  | int _ d | float _ d => .quantity d
  | bool _ => .bool
  | text _ => .text
  | void => .void

end Measured

/-- A variable remembers the type that it is declared with. -/
structure Variable where
  type : Ty
  content : Measured

structure MeasuredMachine where
  stack : CallStack Variable
  output : Array String

def MeasuredMachine.start : MeasuredMachine := ⟨.empty, #[]⟩

/-- Why a run with dimensions has stopped. -/
inductive MeasuredHalt where
  | halted (halt : Halt)
  /-- A dimension is not what it has to be. -/
  | misfit

abbrev MeasuredRun := ExceptT MeasuredHalt (StateM MeasuredMachine)

namespace MeasuredRun

variable {α : Type}

def fail (error : RunError) : MeasuredRun α := throw (.halted (.failed error))

def exhaust : MeasuredRun α := throw (.halted .exhausted)

def ofExcept : Except RunError α → MeasuredRun α
  | .ok a => pure a
  | .error e => fail e

/-- Goes on with what is there, and is a misfit if it is missing. -/
def need : Option α → MeasuredRun α
  | some a => pure a
  | none => throw .misfit

/-- A value has to be what a type says, in its sort and its dimension. -/
def needType (table : UnitTable) (type : Ty) (q : Measured) : MeasuredRun Unit :=
  need (guard (type.meaning table = some q.meaning))

def print (line : String) : MeasuredRun Unit := modify fun m => { m with output := m.output.push line }

def read (name : Symbol) : MeasuredRun Measured := do
  match (← get).stack.current.lookup name.name with
  | some x => return x.content
  | none => fail (.undefinedVariable name)

def declare (table : UnitTable) (name : Symbol) (type : Ty) (q : Measured) : MeasuredRun Unit := do
  needType table type q
  modify fun m => { m with stack := m.stack.modify (·.declare name.name ⟨type, q⟩) }

/-- A variable keeps its type when it is assigned. -/
def assign (table : UnitTable) (name : Symbol) (q : Measured) : MeasuredRun Unit := do
  let context := (← get).stack.current
  match context.lookup name.name with
  | none => fail (.undefinedVariable name)
  | some x => do
    needType table x.type q
    match context.assign? name.name ⟨x.type, q⟩ with
    | some c => modify fun m => { m with stack := m.stack.modify fun _ => c }
    | none => fail (.undefinedVariable name)

def inBlock (body : MeasuredRun α) : MeasuredRun α := fun m =>
  let (result, t) := body { m with stack := m.stack.modify .push }
  (result, { t with stack := t.stack.modify .pop })

def inCall (parameters : Scope Variable) (body : MeasuredRun α) : MeasuredRun α := fun m =>
  let (result, t) := body { m with stack := m.stack.enter parameters }
  (result, { t with stack := t.stack.exit })

/-! What the steps come to from a given state. -/

theorem run_read (name : Symbol) (s : MeasuredMachine) :
    (read name).run.run s =
      (match s.stack.current.lookup name.name with
        | some x => pure x.content
        | none => fail (.undefinedVariable name) : MeasuredRun Measured).run.run s := rfl

theorem run_assign (table : UnitTable) (name : Symbol) (q : Measured) (s : MeasuredMachine) :
    (assign table name q).run.run s =
      (match s.stack.current.lookup name.name with
        | none => fail (.undefinedVariable name)
        | some x => do
          needType table x.type q
          match s.stack.current.assign? name.name ⟨x.type, q⟩ with
          | some c => modify fun m => { m with stack := m.stack.modify fun _ => c }
          | none => fail (.undefinedVariable name) : MeasuredRun Unit).run.run s := rfl

theorem run_inBlock (body : MeasuredRun α) (s : MeasuredMachine) :
    (inBlock body).run.run s = (body.run.run { s with stack := s.stack.modify .push }).map id
      fun t => { t with stack := t.stack.modify .pop } := rfl

theorem run_inCall (parameters : Scope Variable) (body : MeasuredRun α) (s : MeasuredMachine) :
    (inCall parameters body).run.run s = (body.run.run { s with stack := s.stack.enter parameters }).map id
      fun t => { t with stack := t.stack.exit } := rfl

end MeasuredRun

/-! ### Operations -/

/-- A number without a unit has no dimension; any other has the one that its unit expands to. -/
def Literal.measured (table : UnitTable) : Literal → MeasuredRun Measured
  | int n none => return .int n 0
  | float x none => return .float x 0
  | int n (some u) => do return .int n (← MeasuredRun.need (u.dimension? table))
  | float x (some u) => do return .float x (← MeasuredRun.need (u.dimension? table))
  | bool b => return .bool b
  | text s => return .text s

def UnaryOp.applyMeasured (op : UnaryOp) (position : Position) (operand : Measured) : MeasuredRun Measured := do
  let v ← MeasuredRun.ofExcept (op.apply position operand.value)
  return .attach (operand.dimension?.getD 0) v

/-- The dimension of the result of an operation on numbers, if it takes their dimensions. -/
def BinaryOp.dimension? (op : BinaryOp) (d e : Dimension) : Option Dimension :=
  match op with
  | plus | minus => if d = e then some d else none
  | star => some (d + e)
  | slash => some (d - e)
  | equal | notEqual | greater | greaterEqual | less | lessEqual => if d = e then some 0 else none
  | or | and => some 0

def BinaryOp.applyMeasured (op : BinaryOp) (position : Position) (left right : Measured) : MeasuredRun Measured := do
  let dimension ← MeasuredRun.need <|
    match left.dimension?, right.dimension? with
    | some d, some e => op.dimension? d e
    | _, _ => some 0
  let v ← MeasuredRun.ofExcept (op.apply position left.value right.value)
  return .attach dimension v

namespace Builtin

/-- The dimension of a root: all powers have to be even. -/
def rootDimension? (x : Measured) : Option Dimension :=
  match x.dimension? with
  | some d => d.half?
  | none => some 0

/-- The dimension of a power: the exponent has none, and has to be an integer unless the base has none either. -/
def powerDimension? (base exponent : Measured) : Option Dimension :=
  match base.dimension?, exponent.dimension? with
  | some d, some e =>
    if e ≠ 0 then none
    else if d = 0 then some 0
    else
      match exponent with
      | .int n _ => some (n.toInt • d)
      | _ => none
  | _, _ => some 0

def callMeasured (callee : Builtin) (args : List Measured) : MeasuredRun Measured :=
  match callee, args with
  | print, [q] => do
    MeasuredRun.print q.value.display
    return .void
  | sqrt, [x] => do answer (← MeasuredRun.need (rootDimension? x)) (squareRoot x.value)
  | power, [base, exponent] => do
    answer (← MeasuredRun.need (powerDimension? base exponent)) (raise base.value exponent.value)
  | _, _ => MeasuredRun.fail (.unchecked (.builtinArguments callee args.length))
where
  answer (dimension : Dimension) (result : Except BuiltinFault Value) : MeasuredRun Measured := do
    return .attach dimension (← MeasuredRun.ofExcept (result.mapError (.builtin callee)))

end Builtin

/-! ### Programs -/

abbrev MeasuredInvocation := Function → List Measured → MeasuredRun Measured

inductive MeasuredFlow where
  | normal
  | returned (q : Measured)

def Program.callMeasured (p : Program) (invoke : MeasuredInvocation) (callee : Symbol) (args : List Measured) :
    MeasuredRun Measured :=
  match Builtin.ofName? callee.name with
  | some builtin => builtin.callMeasured args
  | none =>
    match p.function? callee.name with
    | some f => invoke f args
    | none => MeasuredRun.fail (.undefinedFunction callee)

mutual

def Expr.measured (p : Program) (invoke : MeasuredInvocation) : Expr → MeasuredRun Measured
  | .literal value _ => value.measured p.unitTable
  | .var name => MeasuredRun.read name
  | .unary op position operand => do
    let q ← operand.measured p invoke
    op.applyMeasured position q
  | .binary left op position right => do
    let l ← left.measured p invoke
    let r ← right.measured p invoke
    op.applyMeasured position l r
  | .call callee args => do
    let qs ← Expr.measuredAll p invoke args
    p.callMeasured invoke callee qs

def Expr.measuredAll (p : Program) (invoke : MeasuredInvocation) : List Expr → MeasuredRun (List Measured)
  | [] => return []
  | e :: es => do
    let q ← e.measured p invoke
    return q :: (← Expr.measuredAll p invoke es)

end

def Expr.holdsMeasured (p : Program) (invoke : MeasuredInvocation) (condition : Expr) : MeasuredRun Bool := do
  match ← condition.measured p invoke with
  | .bool b => return b
  | q => MeasuredRun.fail (.unchecked (.condition q.value.kind))

def MeasuredRun.repeatWhile (condition : MeasuredRun Bool) (body : MeasuredRun MeasuredFlow) :
    (rounds : Nat) → MeasuredRun MeasuredFlow
  | 0 => MeasuredRun.exhaust
  | rounds + 1 => do
    if ← condition then
      match ← body with
      | .normal => repeatWhile condition body rounds
      | .returned q => return .returned q
    else return .normal

mutual

def Stmt.measured (p : Program) (invoke : MeasuredInvocation) (rounds : Nat) : Stmt → MeasuredRun MeasuredFlow
  | .declare name type value => do
    let q ← value.measured p invoke
    MeasuredRun.declare p.unitTable name type q
    return .normal
  | .assign name value => do
    let q ← value.measured p invoke
    MeasuredRun.assign p.unitTable name q
    return .normal
  | .ifElse condition body otherwise => do
    if ← condition.holdsMeasured p invoke then MeasuredRun.inBlock (Stmt.measuredAll p invoke rounds body)
    else otherwise.measured p invoke rounds
  | .loop condition body =>
    MeasuredRun.repeatWhile (condition.holdsMeasured p invoke)
      (MeasuredRun.inBlock (Stmt.measuredAll p invoke rounds body)) rounds
  | .ret _ (some value) => do
    let q ← value.measured p invoke
    return .returned q
  | .ret _ none => return .returned .void
  | .call callee args => do
    let _ ← Expr.measured p invoke (.call callee args)
    return .normal
  | .block body => MeasuredRun.inBlock (Stmt.measuredAll p invoke rounds body)

def Stmt.measuredAll (p : Program) (invoke : MeasuredInvocation) (rounds : Nat) :
    List Stmt → MeasuredRun MeasuredFlow
  | [] => return .normal
  | s :: ss => do
    match ← s.measured p invoke rounds with
    | .normal => Stmt.measuredAll p invoke rounds ss
    | .returned q => return .returned q

def Else.measured (p : Program) (invoke : MeasuredInvocation) (rounds : Nat) : Else → MeasuredRun MeasuredFlow
  | .none => return .normal
  | .last body => MeasuredRun.inBlock (Stmt.measuredAll p invoke rounds body)
  | .elseIf condition body otherwise => do
    if ← condition.holdsMeasured p invoke then MeasuredRun.inBlock (Stmt.measuredAll p invoke rounds body)
    else otherwise.measured p invoke rounds

end

namespace Function

/-- The arguments as variables of the types of the parameters. -/
def measuredArguments (f : Function) (args : List Measured) : Scope Variable :=
  .ofList ((f.params.map (·.name.name)).zip ((f.params.map (·.type)).zipWith Variable.mk args))

/-- What is given back has to be what the function says. -/
def measuredResult (table : UnitTable) (f : Function) : MeasuredFlow → MeasuredRun Measured
  | .returned q => do
    MeasuredRun.needType table f.returnType q
    return q
  | .normal => if f.returnType = .void then return .void else MeasuredRun.fail (.missingReturn f.name.name)

end Function

/-- Arguments have to be what the parameters say. -/
def MeasuredRun.needTypes (table : UnitTable) : List Param → List Measured → MeasuredRun Unit
  | param :: params, q :: qs => do
    needType table param.type q
    needTypes table params qs
  | _, _ => return ()

namespace Program

def invokeMeasured (p : Program) : (bound : Nat) → MeasuredInvocation
  | 0 => fun _ _ => MeasuredRun.exhaust
  | bound + 1 => fun f args => do
    if args.length ≠ f.params.length then
      MeasuredRun.fail (.unchecked (.arguments f.name.name f.params.length args.length))
    MeasuredRun.needTypes p.unitTable f.params args
    let flow ← MeasuredRun.inCall (f.measuredArguments args) (Stmt.measuredAll p (p.invokeMeasured bound) bound f.body)
    f.measuredResult p.unitTable flow

def runMeasured (p : Program) (bound : Nat) : MeasuredRun Unit := do
  match ← Stmt.measuredAll p (p.invokeMeasured bound) bound p.statements with
  | .returned _ => MeasuredRun.fail (.unchecked .returnOutsideFunction)
  | .normal =>
    match p.function? "main" with
    | some main => do
      let _ ← p.invokeMeasured bound main []
    | none => return ()

end Program

/-- How a run with dimensions has ended, and what it has printed until then. -/
structure MeasuredOutcome where
  ending : Except MeasuredHalt Unit
  printed : List String

/-- Runs a program with dimensions from the start. -/
def Program.measuredOutcome (p : Program) (bound : Nat) : MeasuredOutcome :=
  let (ending, machine) := (p.runMeasured bound).run.run .start
  ⟨ending, machine.output.toList⟩

end Mensura
