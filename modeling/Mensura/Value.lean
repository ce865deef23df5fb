import Mensura.Numeral.Notation

/-!
What a program computes with. Values carry no units: those are settled before a program runs.
-/

namespace Mensura

inductive Value where
  | int (n : Int64)
  | float (x : Float)
  | bool (b : Bool)
  | text (s : String)
  | void
  deriving DecidableEq, Repr

namespace Value

/-- The sorts of values. -/
inductive Kind where
  | int | float | bool | text | void
  deriving DecidableEq, Repr

def Kind.name : Kind → String
  | int => "Int"
  | float => "Float"
  | bool => "Bool"
  | text => "String"
  | void => "Void"

def kind : Value → Kind
  | int _ => .int
  | float _ => .float
  | bool _ => .bool
  | text _ => .text
  | void => .void

def display : Value → String
  | int n => Numeral.integer n.toInt
  | float x => Numeral.plain x
  | bool b => if b then "true" else "false"
  | text s => s
  | void => "void"

/-- The number that a value stands for. An integer gives the floating-point number next to it. -/
def number? : Value → Option Float
  | int n => some (Float.ofInt n.toInt)
  | float x => some x
  | _ => none

end Value

end Mensura
