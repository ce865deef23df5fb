import Mensura.Builtin.Signature

/-!
Why a program is not accepted before it runs. An error stands at the place of the name, the operator or the
expression that it is about.
-/

namespace Mensura

/-- What is applied to operands. -/
inductive Operation where
  | unary (op : UnaryOp)
  | binary (op : BinaryOp)
  | call (callee : Builtin)
  deriving DecidableEq, Repr

def Operation.display : Operation → String
  | unary op => op.display
  | binary op => op.display
  | call callee => callee.name

inductive TypingFault where
  | variableRedeclared (name : String)
  | variableUndeclared (name : String)
  | functionUndeclared (name : String)
  /-- A unit cannot be worked out. -/
  | unit (error : UnitError)
  | mismatch (expected found : Ty)
  | notPermitted (operation : Operation) (operands : List Ty)
  | argumentCount (callee : String) (expected found : Nat)
  | returnMismatch (function : String) (expected found : Ty)
  | parameterRepeated (function parameter : String)
  deriving DecidableEq, Repr

namespace TypingFault

def unitMessage : UnitError → String
  | .undeclared name => "unit '" ++ name ++ "' is not declared"
  | .recursive name => "unit '" ++ name ++ "' is defined in terms of itself"
  | .powerOverflow name => "power of unit '" ++ name ++ "' is out of range"

/-- The operands behind the words that a message about an operation begins with. -/
def operandsMessage : List Ty → String
  | [operand] => "on " ++ operand.display
  | [left, right] => "between " ++ left.display ++ " and " ++ right.display
  | operands => "with (" ++ ", ".intercalate (operands.map Ty.display) ++ ")"

def message : TypingFault → String
  | variableRedeclared name => "'" ++ name ++ "' is already declared"
  | variableUndeclared name => "'" ++ name ++ "' is not declared"
  | functionUndeclared name => "function '" ++ name ++ "' is not declared"
  | unit error => unitMessage error
  | mismatch expected found => "expected type " ++ expected.display ++ " but found " ++ found.display
  | notPermitted operation operands =>
    "operation '" ++ operation.display ++ "' is not permitted " ++ operandsMessage operands
  | argumentCount callee expected found =>
    "'" ++ callee ++ "' expects " ++ Numeral.integer expected ++ " arguments but was given " ++
      Numeral.integer found
  | returnMismatch function expected found =>
    "'" ++ function ++ "' must return " ++ expected.display ++ " but returns " ++ found.display
  | parameterRepeated function parameter =>
    "parameter '" ++ parameter ++ "' of '" ++ function ++ "' is declared more than once"

end TypingFault

structure TypingError where
  fault : TypingFault
  position : Position
  deriving DecidableEq, Repr

end Mensura
