import Mensura.Diagnostic

/-!
Sessions: programs that are run and checked one after the other, and expressions that are worked out against
the last of them. What a run has declared outside of functions stays for the runs and expressions after it. A
program that cannot be read leaves everything as it was.
-/

namespace Mensura

/-- The program at hand, what has been checked of it, and the state that the runs have left. -/
structure Session where
  program : Program
  checker : Checker
  machine : Machine

inductive Command where
  | run (text : String)
  | check (text : String)
  | typeOf (expression : String)
  | evaluate (expression : String)
  deriving DecidableEq, Repr

inductive Answer where
  | done
  | type (type : Ty)
  | value (value : Value)
  deriving DecidableEq, Repr

/-- Why a command has no answer. -/
inductive Stop where
  | diagnosed (diagnostic : Diagnostic)
  | exhausted
  deriving DecidableEq, Repr

def Halt.toStop : Halt → Stop
  | failed error => .diagnosed (.run error)
  | exhausted => .exhausted

structure Reply where
  outcome : Except Stop Answer
  printed : List String

namespace Session

def start : Session := ⟨.empty, .start, .start⟩

/-- The value of the assignment that a program begins with. -/
def assigned? (p : Program) : Option Expr :=
  match p.statements with
  | .assign _ value :: _ => some value
  | _ => none

/-- Reads an expression, as the value that a program begins by assigning. What follows the expression has to
be readable too. -/
def readExpression (limits : Limits) (text : String) : Except Refusal Expr := do
  let p ← Program.ofText limits ("x=" ++ text)
  match assigned? p with
  | some e => return e
  | none => throw (.syntactic (.mismatch [.assign] (.etx .start)))

/-- A new program with a fresh start for checking it. -/
def load (s : Session) (p : Program) : Session := { s with program := p, checker := .start }

/-- The lines that are new in `t`. -/
def printedSince (s t : Session) : List String :=
  (t.machine.output.toSubarray s.machine.output.size).toList

def refused (r : Refusal) : Except Stop Answer := .error (.diagnosed (.refusal r))

def checkProgram (s : Session) (p : Program) : Except Stop Answer × Session :=
  let (result, checker) := p.check.run.run .start
  ((result.mapError (.diagnosed ∘ .typing)).map fun _ => .done, { s.load p with checker })

def runProgram (bound : Nat) (s : Session) (p : Program) : Except Stop Answer × Session :=
  let (result, machine) := (p.run bound).run.run s.machine
  ((result.mapError Halt.toStop).map fun _ => .done, { s.load p with machine })

def typeExpression (s : Session) (e : Expr) : Except Stop Answer × Session :=
  let (result, checker) := (s.program.typeOf e).run.run s.checker
  ((result.mapError (.diagnosed ∘ .typing)).map .type, { s with checker })

def evaluateExpression (bound : Nat) (s : Session) (e : Expr) : Except Stop Answer × Session :=
  let (result, machine) := (s.program.evaluate bound e).run.run s.machine
  ((result.mapError Halt.toStop).map .value, { s with machine })

/-- Goes on with what could be read. -/
def reading {α : Type} (s : Session) (r : Except Refusal α)
    (next : α → Except Stop Answer × Session) : Except Stop Answer × Session :=
  match r with
  | .ok a => next a
  | .error refusal => (refused refusal, s)

def perform (limits : Limits) (bound : Nat) (s : Session) : Command → Except Stop Answer × Session
  | .run text => s.reading (Program.ofText limits text) (s.runProgram bound)
  | .check text => s.reading (Program.ofText limits text) s.checkProgram
  | .typeOf text => s.reading (readExpression limits text) s.typeExpression
  | .evaluate text => s.reading (readExpression limits text) (s.evaluateExpression bound)

/-- Carries out a command and says what it has printed. -/
def step (limits : Limits) (bound : Nat) (s : Session) (c : Command) : Reply × Session :=
  let (outcome, t) := s.perform limits bound c
  (⟨outcome, s.printedSince t⟩, t)

/-- The replies to a list of commands. -/
def replies (limits : Limits) (bound : Nat) (s : Session) : List Command → List Reply
  | [] => []
  | c :: cs =>
    let (reply, t) := s.step limits bound c
    reply :: replies limits bound t cs

end Session

end Mensura
