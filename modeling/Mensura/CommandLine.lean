import Mensura.Diagnostic
import Mensura.Program.Printer

/-!
The command line: one file, which is run unless an option asks for less. Options may stand before and behind
the file, and again and again. Everything that can be said about a call without reading the file is said
here, and so is what to do with its bytes.
-/

namespace Mensura

namespace CommandLine

/-- The options that stop before the program runs. -/
structure Options where
  tokens : Bool := false
  tree : Bool := false
  check : Bool := false
  deriving DecidableEq, Repr

inductive Request where
  | process (file : String) (options : Options)
  | version
  | misuse
  deriving DecidableEq, Repr

/-- A word that can only be an option: a hyphen with something behind it. -/
def isOption (word : String) : Bool :=
  match word.toList with
  | '-' :: _ :: _ => true
  | _ => false

/-- The long name of the version option, or its letter with anything behind it. -/
def asksVersion (word : String) : Bool :=
  word == "--version" ||
    match word.toList with
    | '-' :: 'V' :: _ => true
    | _ => false

def option? (options : Options) (word : String) : Option Options :=
  if word = "--tokens" then some { options with tokens := true }
  else if word = "--ast" then some { options with tree := true }
  else if word = "--check" then some { options with check := true }
  else none

/-- The file, of which there is one and which has a name. -/
def addFile? (file : Option String) (word : String) : Option String :=
  match file with
  | none => if word.isEmpty then none else some word
  | some _ => none

def finish (options : Options) : Option String → Request
  | some file => .process file options
  | none => .misuse

/-- The words behind the mark that ends the options. -/
def requestOfFiles (options : Options) (file : Option String) : List String → Request
  | [] => finish options file
  | word :: words =>
    match addFile? file word with
    | some f => requestOfFiles options (some f) words
    | none => .misuse

/-- Reads the words of a call from the first to the last. The first that is at fault, or that asks for the
version, decides. -/
def requestFrom (options : Options) (file : Option String) : List String → Request
  | [] => finish options file
  | word :: words =>
    if word = "--" then requestOfFiles options file words
    else if asksVersion word then .version
    else if isOption word then
      match option? options word with
      | some o => requestFrom o file words
      | none => .misuse
    else
      match addFile? file word with
      | some f => requestFrom options (some f) words
      | none => .misuse

def request (words : List String) : Request := requestFrom {} none words

/-- What the caller sees. -/
structure Report where
  code : Nat
  output : String
  deriving DecidableEq, Repr

def versionReport : Report := ⟨0, "unitlang 0.1.0\n"⟩

/-- A call that is no request: what to say about it does not go to the output. -/
def misuseReport : Report := ⟨2, ""⟩

/-- Why a file has no bytes. -/
inductive ReadFault where
  | missing
  | directory
  | other (reason : String)
  deriving DecidableEq, Repr

def ReadFault.message : ReadFault → String
  | missing => "No such file or directory (os error 2)"
  | directory => "Is a directory (os error 21)"
  | other reason => reason

/-- The bytes of a file as text. -/
def decode (bytes : Except ReadFault ByteArray) : Except String String :=
  match bytes with
  | .error fault => .error fault.message
  | .ok b =>
    match String.fromUTF8? b with
    | some text => .ok text
    | none => .error "stream did not contain valid UTF-8"

/-- How to process a file. -/
structure Settings where
  limits : Limits
  coloured : Bool
  bound : Nat

def lines (ls : List String) : String := String.join (ls.map (· ++ "\n"))

/-- A failure: what was printed before it, and then its own line. -/
def failure (settings : Settings) (file : String) (printed : List String) (d : Diagnostic) : Report :=
  ⟨1, lines (printed ++ [if settings.coloured then d.colouredLine file else d.line file])⟩

/-- What comes after the programs that are only shown: checking and running. -/
def finishProgram (settings : Settings) (file : String) (options : Options) (p : Program) : Report :=
  match p.checked with
  | .error e => failure settings file [] (.typing e)
  | .ok () =>
    if options.check then ⟨0, ""⟩
    else
      let outcome := p.outcome settings.bound
      match outcome.ending with
      | .ok () => ⟨0, lines outcome.printed⟩
      | .error (.failed e) => failure settings file outcome.printed (.run e)
      | .error .exhausted => ⟨1, lines outcome.printed⟩

/-- Goes through the stages in order, up to the one that is asked for or fails. -/
def process (settings : Settings) (file : String) (options : Options)
    (bytes : Except ReadFault ByteArray) : Report :=
  match decode bytes with
  | .error reason => ⟨1, lines ["could not read '" ++ file ++ "': " ++ reason]⟩
  | .ok text =>
    let stream := TokenStream.ofText settings.limits text
    if options.tokens then
      match stream.listing with
      | .ok tokens => ⟨0, lines (tokens.map Token.display)⟩
      | .error e => failure settings file [] (.refusal (.lexical e))
    else
      match Program.ofTokens stream with
      | .error r => failure settings file [] (.refusal r)
      | .ok p => if options.tree then ⟨0, p.display⟩ else finishProgram settings file options p

/-- Answers a request. The file is only asked for if there is one. -/
def answer (settings : Settings) (bytes : String → Except ReadFault ByteArray) : Request → Report
  | .process file options => process settings file options (bytes file)
  | .version => versionReport
  | .misuse => misuseReport

/-- The environment variable with the setting of a limit. -/
def variableName (limit : String) : String := "UNITLANG_MAX_" ++ limit

/-- Whether to write in colour: always if that is forced, never if colours are refused, else on a terminal
unless they are switched off. A variable that is set to 0 is off. -/
def colours (setting : String → Option String) (terminal : Bool) : Bool :=
  let on (name : String) : Option Bool := (setting name).map (· != "0")
  if on "CLICOLOR_FORCE" = some true then true
  else if (setting "NO_COLOR").isSome then false
  else (on "CLICOLOR").getD true && terminal

end CommandLine

end Mensura
