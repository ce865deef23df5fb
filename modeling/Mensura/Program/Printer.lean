import Mensura.Numeral.Notation
import Mensura.Program.Basic
import Mensura.Text.Quoted

/-!
Programs as text. Expressions are written with parentheses around every operation, blocks are indented by two
blanks, and units and functions come first, in their order.
-/

namespace Mensura

namespace Literal

def withUnit (number : String) : Option UnitExpr → String
  | some unit => number ++ " " ++ unit.display
  | none => number

def display : Literal → String
  | int value unit => withUnit (Numeral.integer value.toInt) unit
  | float value unit => withUnit (Numeral.plain value) unit
  | bool value => if value then "true" else "false"
  | text value => Text.quoted value

end Literal

mutual

def Expr.display : Expr → String
  | .literal value _ => value.display
  | .unary op _ operand => "(" ++ op.display ++ operand.display ++ ")"
  | .binary left op _ right => "(" ++ left.display ++ " " ++ op.display ++ " " ++ right.display ++ ")"
  | .call callee args => callee.name ++ "(" ++ ", ".intercalate (Expr.displayAll args) ++ ")"
  | .var name => name.name

def Expr.displayAll : List Expr → List String
  | [] => []
  | e :: es => e.display :: Expr.displayAll es

end

/-- The blanks before a line inside `depth` blocks. -/
def indent (depth : Nat) : String := String.ofList (List.replicate (2 * depth) ' ')

/-- One line, with its end. -/
def line (depth : Nat) (text : String) : String := indent depth ++ text ++ "\n"

mutual

def Stmt.display (depth : Nat) : Stmt → String
  | .declare name type value =>
    line depth ("let " ++ name.name ++ ": " ++ type.display ++ " = " ++ value.display)
  | .assign name value => line depth (name.name ++ " = " ++ value.display)
  | .ifElse condition body otherwise =>
    line depth ("if " ++ condition.display ++ " \x7b") ++ Stmt.displayAll (depth + 1) body ++
      otherwise.display depth
  | .loop condition body =>
    line depth ("while " ++ condition.display ++ " \x7b") ++ Stmt.displayAll (depth + 1) body ++
      line depth "\x7d"
  | .ret _ (some value) => line depth ("return " ++ value.display)
  | .ret _ none => line depth "return"
  | .call callee args => line depth (Expr.call callee args).display
  | .block body => line depth "\x7b" ++ Stmt.displayAll (depth + 1) body ++ line depth "\x7d"

def Stmt.displayAll (depth : Nat) : List Stmt → String
  | [] => ""
  | s :: ss => s.display depth ++ Stmt.displayAll depth ss

/-- The rest of an `if`, from the brace that closes the branch before it. -/
def Else.display (depth : Nat) : Else → String
  | .none => line depth "\x7d"
  | .last body =>
    line depth "\x7d else \x7b" ++ Stmt.displayAll (depth + 1) body ++ line depth "\x7d"
  | .elseIf condition body otherwise =>
    line depth ("\x7d else if " ++ condition.display ++ " \x7b") ++
      Stmt.displayAll (depth + 1) body ++ otherwise.display depth

end

def Param.display (p : Param) : String := p.name.name ++ ": " ++ p.type.display

def UnitDeclaration.display (d : UnitDeclaration) : String :=
  line 1 ("unit " ++ d.name.name ++ ": " ++ d.unit.display)

def Function.display (f : Function) : String :=
  line 1 (f.name.name ++ "(" ++ ", ".intercalate (f.params.map Param.display) ++ ") -> " ++
    f.returnType.display ++ " \x7b") ++ Stmt.displayAll 2 f.body ++ line 1 "\x7d"

namespace Program

/-- The units, the functions and the statements of a program, without the lines around them. -/
def listing (p : Program) : String :=
  String.join (p.unitsInOrder.map UnitDeclaration.display) ++
    String.join (p.functionsInOrder.map Function.display) ++ Stmt.displayAll 1 p.statements

def display (p : Program) : String := "Program \x7b\n" ++ p.listing ++ "\x7d\n"

end Program

end Mensura
