import Mensura.Text.Position
import Mensura.UnitExpr.Expansion

/-!
Programs as trees. Every name and every operator keeps the place where it stands in the text, which is where
messages about it point.
-/

namespace Mensura

/-- The type of a value: a number with a unit, a truth value, a text, or nothing. -/
inductive Ty where
  | quantity (unit : UnitExpr)
  | bool
  | text
  | void
  deriving DecidableEq, Repr

def Ty.display : Ty → String
  | quantity unit => unit.display
  | bool => "bool"
  | text => "string"
  | void => "void"

/-- A name at a place. -/
structure Symbol where
  name : String
  position : Position
  deriving DecidableEq, Repr

/-- A constant. A number may be followed by its unit. -/
inductive Literal where
  | int (value : Int64) (unit : Option UnitExpr)
  | float (value : Float) (unit : Option UnitExpr)
  | bool (value : Bool)
  | text (value : String)
  deriving DecidableEq, Repr

inductive UnaryOp where
  | minus | not
  deriving DecidableEq, Repr

inductive BinaryOp where
  | or | and
  | equal | notEqual | greater | greaterEqual | less | lessEqual
  | plus | minus | star | slash
  deriving DecidableEq, Repr

def UnaryOp.display : UnaryOp → String
  | minus => "-"
  | not => "!"

def BinaryOp.display : BinaryOp → String
  | or => "||"
  | and => "&&"
  | equal => "=="
  | notEqual => "!="
  | greater => ">"
  | greaterEqual => ">="
  | less => "<"
  | lessEqual => "<="
  | plus => "+"
  | minus => "-"
  | star => "*"
  | slash => "/"

inductive Expr where
  | literal (value : Literal) (position : Position)
  | unary (op : UnaryOp) (position : Position) (operand : Expr)
  | binary (left : Expr) (op : BinaryOp) (position : Position) (right : Expr)
  | call (callee : Symbol) (args : List Expr)
  | var (name : Symbol)
  deriving Repr

/-- Where an expression begins, but for the parentheses around it. -/
def Expr.position : Expr → Position
  | literal _ position => position
  | unary _ position _ => position
  | binary left _ _ _ => left.position
  | call callee _ => callee.position
  | var name => name.position

mutual

inductive Stmt where
  | declare (name : Symbol) (type : Ty) (value : Expr)
  | assign (name : Symbol) (value : Expr)
  | ifElse (condition : Expr) (body : List Stmt) (otherwise : Else)
  | loop (condition : Expr) (body : List Stmt)
  | ret (position : Position) (value : Option Expr)
  | call (callee : Symbol) (args : List Expr)
  | block (body : List Stmt)
  deriving Repr

/-- What stands behind the first branch of an `if`: nothing, a last branch, or a further condition. -/
inductive Else where
  | none
  | last (body : List Stmt)
  | elseIf (condition : Expr) (body : List Stmt) (otherwise : Else)
  deriving Repr

end

structure Param where
  name : Symbol
  type : Ty
  deriving DecidableEq, Repr

structure Function where
  name : Symbol
  params : List Param
  returnType : Ty
  body : List Stmt
  deriving Repr

structure UnitDeclaration where
  name : Symbol
  unit : UnitExpr
  deriving DecidableEq, Repr

/-- Functions and units, no name among either twice, and the statements outside of functions. -/
structure Program where
  functions : List Function
  units : List UnitDeclaration
  statements : List Stmt
  deriving Repr

namespace Program

def empty : Program := ⟨[], [], []⟩

def function? (p : Program) (name : String) : Option Function :=
  p.functions.find? (·.name.name == name)

def declaresUnit (p : Program) (name : String) : Bool := p.units.any (·.name.name == name)

def unitTable (p : Program) : UnitTable := p.units.map fun d => (d.name.name, d.unit)

/-- The functions in the order of the places of their names. -/
def functionsInOrder (p : Program) : List Function :=
  p.functions.mergeSort fun f g => f.name.position.le g.name.position

/-- The unit declarations in the order of the places of their names. -/
def unitsInOrder (p : Program) : List UnitDeclaration :=
  p.units.mergeSort fun d e => d.name.position.le e.name.position

/-- Puts the body of a function in the place of the statements, and drops the function. The result need not be a
program that can be read: a `return` in the body then stands outside of functions, where the parser refuses it. The
checker and the interpreter are defined for it all the same. -/
def promote (p : Program) (name : String) : Program :=
  match p.function? name with
  | none => p
  | some f => { p with functions := p.functions.filter (·.name.name != name), statements := f.body }

end Program

end Mensura
