import Mensura.Numeral.Notation
import Mensura.Text.Position
import Mensura.Text.Quoted

/-!
Why a text cannot be read as tokens. A fault is found at a place, which is where reading stopped.
-/

namespace Mensura

inductive LexicalFault where
  | commentTooLong (limit : Nat)
  | identifierTooLong (limit : Nat)
  | textTooLong (limit : Nat)
  | quoteMissing
  | unknownEscape (found : Char)
  | numberTooLarge (limit : Int64)
  | tooManyPlaces (limit : Nat)
  | exponentTooLarge (limit : Int32)
  deriving DecidableEq, Repr

def LexicalFault.message : LexicalFault → String
  | commentTooLong limit =>
    "comment exceeds the maximum length of " ++ Numeral.integer limit ++ " characters"
  | identifierTooLong limit =>
    "identifier exceeds the maximum length of " ++ Numeral.integer limit ++ " characters"
  | textTooLong limit => "text exceeds the maximum length of " ++ Numeral.integer limit ++ " characters"
  | quoteMissing => "text is missing its closing quote"
  | unknownEscape found =>
    "unknown escape sequence '\\" ++ String.ofList (Text.asciiName found) ++ "'"
  | numberTooLarge limit => "number exceeds the maximum value of " ++ Numeral.integer limit.toInt
  | tooManyPlaces limit => "number has more than " ++ Numeral.integer limit ++ " decimal places"
  | exponentTooLarge limit => "exponent exceeds the maximum value of " ++ Numeral.integer limit.toInt

structure LexicalError where
  fault : LexicalFault
  position : Position
  deriving DecidableEq, Repr

end Mensura
