import Mensura.Evaluation.Program
import Mensura.Program.Parser
import Mensura.Typing.Program

/-!
What a user is told when a program cannot be read, is not accepted or fails: one line that names the source,
the place if there is one, the stage and the cause. The stages follow each other, and the first that fails is
the one that speaks.
-/

namespace Mensura

inductive Diagnostic where
  | refusal (refusal : Refusal)
  | typing (error : TypingError)
  | run (error : RunError)
  deriving DecidableEq, Repr

namespace Diagnostic

def stage : Diagnostic → String
  | refusal (.lexical _) => "lexical"
  | refusal (.syntactic _) | refusal (.malformed _) => "syntax"
  | typing _ => "semantic"
  | run _ => "runtime"

def position? : Diagnostic → Option Position
  | refusal r => r.position?
  | typing e => some e.position
  | run e => e.position?

def message : Diagnostic → String
  | refusal r => r.message
  | typing e => e.fault.message
  | run e => e.message

/-- The source and the place in it. -/
def location (source : String) (d : Diagnostic) : String :=
  match d.position? with
  | some p => source ++ ":" ++ Numeral.integer p.row ++ ":" ++ Numeral.integer p.column
  | none => source

def label (d : Diagnostic) : String := d.stage ++ " error:"

def line (source : String) (d : Diagnostic) : String :=
  d.location source ++ ": " ++ d.label ++ " " ++ d.message

/-! ### Colours -/

def escape : Char := '\x1b'

/-- What ends a style on a terminal. -/
def reset : List Char := [escape, '[', '0', 'm']

/-- Takes a style up again behind every reset inside a text. -/
def restyle (style : List Char) : List Char → List Char
  | '\x1b' :: '[' :: '0' :: 'm' :: rest => reset ++ style ++ restyle style rest
  | c :: rest => c :: restyle style rest
  | [] => []

/-- A text in a style of the terminal, which is given by its numbers. -/
def styled (numbers : String) (text : String) : String :=
  let style := [escape, '['] ++ numbers.toList ++ ['m']
  String.ofList (style ++ restyle style text.toList ++ reset)

/-- The same line with a faint place and a stage in bold red. -/
def colouredLine (source : String) (d : Diagnostic) : String :=
  styled "2" (d.location source) ++ ": " ++ styled "1;31" d.label ++ " " ++ d.message

end Diagnostic

namespace Program

/-- Reads and checks a program. -/
def accept (limits : Limits) (text : String) : Except Diagnostic Program := do
  let p ← (ofText limits text).mapError .refusal
  p.checked.mapError .typing
  return p

end Program

/-- How a run has ended, and what it has printed until then. -/
structure Outcome where
  ending : Except Halt Unit
  printed : List String

/-- Runs a program from the start. -/
def Program.outcome (p : Program) (bound : Nat) : Outcome :=
  let (ending, machine) := (p.run bound).run.run .start
  ⟨ending, machine.output.toList⟩

end Mensura
