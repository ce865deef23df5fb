import Mensura.CommandLine

/-!
The program: reads its words, the environment and the file, and writes what the command line answers.
-/

namespace Mensura

/-- The values of some environment variables. -/
def readEnvironment (names : List String) : IO (String → Option String) := do
  let settings ← names.mapM fun name => do return (name, ← IO.getEnv name)
  return fun name => (settings.lookup name).join

def readFault : IO.Error → CommandLine.ReadFault
  | .noFileOrDirectory _ _ _ => .missing
  | .inappropriateType _ 21 _ => .directory
  | .permissionDenied _ code details => .other (details ++ " (os error " ++ toString code ++ ")")
  | .inappropriateType _ code details => .other (details ++ " (os error " ++ toString code ++ ")")
  | e => .other e.toString

def readBytes (file : String) : IO (Except CommandLine.ReadFault ByteArray) := do
  try return .ok (← IO.FS.readBinFile file)
  catch e => return .error (readFault e)

/-- How deep calls may nest, and how often a loop may go round: more than any run gets to. -/
def bound : Nat := 1000000000

end Mensura

open Mensura in
def main (args : List String) : IO UInt32 := do
  let request := CommandLine.request args
  let limits ← readEnvironment (Limits.names.map CommandLine.variableName)
  let palette ← readEnvironment ["CLICOLOR_FORCE", "NO_COLOR", "CLICOLOR"]
  let stdout ← IO.getStdout
  let settings : CommandLine.Settings :=
    ⟨.ofEnvironment (limits ∘ CommandLine.variableName), CommandLine.colours palette (← stdout.isTty), bound⟩
  let bytes : Except CommandLine.ReadFault ByteArray ← match request with
    | .process file _ => readBytes file
    | _ => pure (.ok .empty)
  let report := CommandLine.answer settings (fun _ => bytes) request
  stdout.putStr report.output
  stdout.flush
  return report.code.toUInt32
