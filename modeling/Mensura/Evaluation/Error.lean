import Mensura.Builtin.Signature

/-!
What ends a run before its time. Programs can be run unchecked, so a run also meets the faults that checking
looks for; those are kept apart from the ones that depend on the values at hand.
-/

namespace Mensura

/-- A breach of what checking a program rules out. -/
inductive UncheckedFault where
  | condition (found : Value.Kind)
  | unaryOperand (op : UnaryOp) (found : Value.Kind)
  | binaryOperands (op : BinaryOp) (position : Position) (left right : Value.Kind)
  | builtinArguments (callee : Builtin) (found : Nat)
  | arguments (callee : String) (expected found : Nat)
  | returnOutsideFunction
  deriving DecidableEq, Repr

namespace UncheckedFault

def unaryName : UnaryOp → String
  | .minus => "Minus"
  | .not => "Not"

def message : UncheckedFault → String
  | condition found => "condition evaluated to " ++ found.name
  | unaryOperand op found => "invalid operand to unary " ++ unaryName op ++ ": " ++ found.name
  | binaryOperands op position left right =>
    "invalid operands of type " ++ left.name ++ " and " ++ right.name ++ " for '" ++ op.display ++
      "' (line=" ++ Numeral.integer position.row ++ ")"
  | builtinArguments callee found =>
    "native function " ++ callee.name ++ " expected " ++ Numeral.integer callee.arity ++
      " arguments but found " ++ Numeral.integer found
  | arguments callee expected found =>
    "'" ++ callee ++ "' expected " ++ Numeral.integer expected ++ " arguments but found " ++
      Numeral.integer found
  | returnOutsideFunction => "return outside of a function"

end UncheckedFault

inductive RunError where
  | divisionByZero (position : Position)
  | integerOverflow (position : Position)
  /-- A function that gives back a value has come to its end without one. -/
  | missingReturn (function : String)
  | undefinedVariable (name : Symbol)
  | undefinedFunction (name : Symbol)
  | builtin (callee : Builtin) (fault : BuiltinFault)
  | unchecked (fault : UncheckedFault)
  deriving DecidableEq, Repr

namespace RunError

def position? : RunError → Option Position
  | divisionByZero position => some position
  | integerOverflow position => some position
  | undefinedVariable name => some name.position
  | undefinedFunction name => some name.position
  | missingReturn _ | builtin _ _ | unchecked _ => none

def message : RunError → String
  | divisionByZero _ => "division by zero"
  | integerOverflow _ => "integer overflow"
  | missingReturn function => "'" ++ function ++ "' finished without returning a value"
  | undefinedVariable name => "'" ++ name.name ++ "' is not defined"
  | undefinedFunction name => "function '" ++ name.name ++ "' is not defined"
  | builtin callee fault => "when calling " ++ callee.name ++ ": " ++ fault.message
  | unchecked fault => "internal error: " ++ fault.message

end RunError

end Mensura
