import Mensura.Evaluation.Operator
import Mensura.Scope.CallStack

/-!
Running programs: the state of a run and what its steps do. A step changes the state also when it fails: what
has been printed and assigned until then stays.
-/

namespace Mensura

/-- What the names stand for, and the lines printed so far. -/
structure Machine where
  stack : CallStack Value
  output : Array String
  deriving Repr

/-- Before anything is run. -/
def Machine.start : Machine := ⟨.empty, #[]⟩

/-- Why a run has stopped. -/
inductive Halt where
  | failed (error : RunError)
  /-- The bound on calls and rounds was too small. -/
  | exhausted
  deriving DecidableEq, Repr

abbrev Run := ExceptT Halt (StateM Machine)

namespace Run

variable {α : Type}

def fail (error : RunError) : Run α := throw (.failed error)

def exhaust : Run α := throw .exhausted

def ofExcept : Except RunError α → Run α
  | .ok a => pure a
  | .error e => fail e

def print (line : String) : Run Unit := modify fun m => { m with output := m.output.push line }

/-- The value of a name. -/
def read (name : Symbol) : Run Value := do
  match (← get).stack.current.lookup name.name with
  | some v => return v
  | none => fail (.undefinedVariable name)

def declare (name : Symbol) (value : Value) : Run Unit :=
  modify fun m => { m with stack := m.stack.modify (·.declare name.name value) }

/-- Changes the nearest meaning of a name. -/
def assign (name : Symbol) (value : Value) : Run Unit := do
  match (← get).stack.current.assign? name.name value with
  | some c => modify fun m => { m with stack := m.stack.modify fun _ => c }
  | none => fail (.undefinedVariable name)

/-- A run inside a scope of its own. -/
def inBlock (body : Run α) : Run α := fun m =>
  let (result, t) := body { m with stack := m.stack.modify .push }
  (result, { t with stack := t.stack.modify .pop })

/-- A run inside a call. -/
def inCall (parameters : Scope Value) (body : Run α) : Run α := fun m =>
  let (result, t) := body { m with stack := m.stack.enter parameters }
  (result, { t with stack := t.stack.exit })

/-! What the steps come to from a given state. -/

theorem run_read (name : Symbol) (m : Machine) :
    (read name).run.run m =
      (match m.stack.current.lookup name.name with
        | some v => pure v
        | none => fail (.undefinedVariable name) : Run Value).run.run m := rfl

theorem run_assign (name : Symbol) (value : Value) (m : Machine) :
    (assign name value).run.run m =
      (match m.stack.current.assign? name.name value with
        | some c => modify fun m => { m with stack := m.stack.modify fun _ => c }
        | none => fail (.undefinedVariable name) : Run Unit).run.run m := rfl

theorem run_inBlock (body : Run α) (m : Machine) :
    (inBlock body).run.run m = (body.run.run { m with stack := m.stack.modify .push }).map id
      fun t => { t with stack := t.stack.modify .pop } := rfl

theorem run_inCall (parameters : Scope Value) (body : Run α) (m : Machine) :
    (inCall parameters body).run.run m = (body.run.run { m with stack := m.stack.enter parameters }).map id
      fun t => { t with stack := t.stack.exit } := rfl

end Run

end Mensura
