import Mensura.Program.Basic
import Mensura.Text.Quoted
import Mensura.Token.Stream

/-!
Why a sequence of tokens is not a program.
-/

namespace Mensura

/-- A breach of the grammar, or of a rule about definitions that reading checks as well. -/
inductive SyntaxFault where
  /-- The token found is of none of the kinds that could stand here. -/
  | mismatch (expected : List Token.Kind) (found : Token)
  | functionRedefined (name : Symbol)
  | unitRedefined (name : Symbol)
  | returnOutsideFunction (position : Position)
  | powerOutOfRange (position : Position)
  deriving DecidableEq, Repr

namespace SyntaxFault

def position : SyntaxFault → Position
  | mismatch _ found => found.position
  | functionRedefined name => name.position
  | unitRedefined name => name.position
  | returnOutsideFunction position => position
  | powerOutOfRange position => position

def message : SyntaxFault → String
  | mismatch [kind] found => "expected " ++ kind.name ++ " but found " ++ found.display
  | mismatch kinds found =>
    "expected one of " ++ ", ".intercalate (kinds.map Token.Kind.name) ++ " but found " ++ found.display
  | functionRedefined name => "function '" ++ name.name ++ "' is already defined"
  | unitRedefined name => "unit '" ++ name.name ++ "' is already defined"
  | returnOutsideFunction _ => "return statement not enclosed in a function"
  | powerOutOfRange _ => "unit power out of range"

end SyntaxFault

/-- A token that carries a value which cannot stand there. Tokens that are read from a text never do. -/
inductive Malformed where
  | number (value : Option Token.Value)
  | text (value : Option Token.Value)
  | identifier (value : Option Token.Value)
  | power
  /-- The least power, which is the only one that has no opposite, behind a minus. -/
  | powerWithoutOpposite
  deriving DecidableEq, Repr

namespace Malformed

/-- A value with its sort, texts between quotes and floating-point values in their marked form. -/
def sorted : Option Token.Value → String
  | none => "None"
  | some (.text s) => "Some(Str(" ++ Text.quoted s ++ "))"
  | some (.int n) => "Some(Int(" ++ Numeral.integer n.toInt ++ "))"
  | some (.float x) => "Some(Float(" ++ Numeral.marked x ++ "))"
  | some (.bool b) => "Some(Bool(" ++ (if b then "true" else "false") ++ "))"

def message : Malformed → String
  | number value => "internal error in parser: when parsing number, found literal " ++ sorted value
  | text value => "internal error in parser: when parsing text, found literal " ++ sorted value
  | identifier value =>
    "internal error in parser: when parsing identifier, found literal " ++ sorted value
  | power => "internal error in parser: integer token without a value"
  | powerWithoutOpposite => "attempt to negate with overflow"

end Malformed

inductive Refusal where
  | lexical (error : LexicalError)
  | syntactic (fault : SyntaxFault)
  | malformed (token : Malformed)
  deriving DecidableEq, Repr

namespace Refusal

def position? : Refusal → Option Position
  | lexical error => some error.position
  | syntactic fault => some fault.position
  | malformed _ => none

def message : Refusal → String
  | lexical error => error.fault.message
  | syntactic fault => fault.message
  | malformed token => token.message

end Refusal

end Mensura
