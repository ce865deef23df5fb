import Mensura.Numeral.Reading
import Mensura.Numeral.Word

/-!
How large the parts of a program may be. Each limit has a default, and a setting of the environment replaces
it if the setting is a number that the limit can hold; any other setting is ignored.
-/

namespace Mensura

structure Limits where
  /-- Characters of a comment behind its two slashes. -/
  comment : Nat := 1000
  /-- Characters of a name or a reserved word. -/
  identifier : Nat := 128
  /-- Characters that a quoted text stands for. -/
  text : Nat := 4096
  /-- Digits behind the point of a number. -/
  decimalPlaces : Nat := 17
  /-- The exponent of a number, whatever its sign. -/
  exponent : Int32 := 308
  /-- The part of a number before the point. -/
  integer : Int64 := Int64.maxValue
  deriving DecidableEq, Repr

namespace Limits

/-- A setting for a limit that is stored in `bits` bits without a sign. -/
def natural? (bits : Nat) (text : String) : Option Nat :=
  (Numeral.natural? text).filter (· < Nat.pow 2 bits)

/-- The names of the limits in an environment. -/
def names : List String :=
  ["COMMENT_LENGTH", "IDENTIFIER_LENGTH", "TEXT_LENGTH", "DECIMAL_PLACES", "EXPONENT", "INTEGER"]

/-- The limits under an environment, which maps the name of a limit to its setting. -/
def ofEnvironment (setting : String → Option String) : Limits :=
  let default : Limits := {}
  { comment := ((setting "COMMENT_LENGTH").bind (natural? 64)).getD default.comment
    identifier := ((setting "IDENTIFIER_LENGTH").bind (natural? 64)).getD default.identifier
    text := ((setting "TEXT_LENGTH").bind (natural? 64)).getD default.text
    decimalPlaces := ((setting "DECIMAL_PLACES").bind (natural? 32)).getD default.decimalPlaces
    exponent :=
      ((setting "EXPONENT").bind fun s => (Numeral.integer? s).bind int32?).getD default.exponent
    integer :=
      ((setting "INTEGER").bind fun s => (Numeral.integer? s).bind int64?).getD default.integer }

end Limits

end Mensura
