/-!
Reading whole numbers from a text that holds nothing else: an optional sign, then one or more decimal
digits. A plus sign is always allowed, a minus sign only where the number may be negative.
-/

namespace Mensura.Numeral

/-- The value of a decimal digit. -/
def digitValue (c : Char) : Nat := c.toNat - '0'.toNat

/-- The number that a list of digits stands for. -/
def ofDigits (ds : List Char) : Nat := ds.foldl (fun n c => 10 * n + digitValue c) 0

/-- Reads digits and nothing else. -/
def digits? (ds : List Char) : Option Nat :=
  if !ds.isEmpty && ds.all Char.isDigit then some (ofDigits ds) else none

/-- Reads a number that may not be negative. -/
def natural? (text : String) : Option Nat :=
  match text.toList with
  | '+' :: ds => digits? ds
  | ds => digits? ds

/-- Reads a number of either sign. -/
def integer? (text : String) : Option Int :=
  match text.toList with
  | '-' :: ds => (digits? ds).map fun n => -(n : Int)
  | _ => (natural? text).map Int.ofNat

end Mensura.Numeral
