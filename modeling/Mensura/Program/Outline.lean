import Mensura.Program.Printer

/-!
The outline of a program: one line for each node of its tree, every node before the nodes inside it. A line
names the node, says how many nodes of a list follow, and gives the place of the node. So it shows of the tree
that the parser builds what the printed program does not: how operators are nested, where a list of statements
ends, and all the places that errors are told with.
-/

namespace Mensura

namespace Outline

def place (p : Position) : String := Numeral.integer p.row ++ ":" ++ Numeral.integer p.column

/-- A node with a place. -/
def placed (text : String) (p : Position) : String := text ++ " @" ++ place p

/-- A node that a number of nodes follow. -/
def counted (text : String) (n : Nat) : String := text ++ " " ++ Numeral.integer n

def literalKind : Literal → String
  | .int .. => "int"
  | .float .. => "float"
  | .bool _ => "bool"
  | .text _ => "str"

def call (callee : Symbol) (args : List Expr) : String :=
  placed (counted ("call " ++ callee.name) args.length) callee.position

mutual

def expr : Expr → List String
  | .literal value position => [placed (literalKind value ++ " " ++ value.display) position]
  | .unary op position operand => placed ("unary " ++ op.display) position :: expr operand
  | .binary left op position right =>
    (placed ("binary " ++ op.display) position ++ " from " ++ place left.position) ::
      (expr left ++ expr right)
  | .call callee args => call callee args :: exprs args
  | .var name => [placed ("var " ++ name.name) name.position]

def exprs : List Expr → List String
  | [] => []
  | e :: es => expr e ++ exprs es

end

mutual

def stmt : Stmt → List String
  | .declare name type value =>
    placed ("let " ++ name.name ++ " " ++ type.display) name.position :: expr value
  | .assign name value => placed ("assign " ++ name.name) name.position :: expr value
  | .ifElse condition body otherwise =>
    counted "if" body.length :: (expr condition ++ stmts body ++ branches otherwise)
  | .loop condition body => counted "while" body.length :: (expr condition ++ stmts body)
  | .ret position (some value) => placed "return true" position :: expr value
  | .ret position none => [placed "return false" position]
  | .call callee args => call callee args :: exprs args
  | .block body => counted "block" body.length :: stmts body

def stmts : List Stmt → List String
  | [] => []
  | s :: ss => stmt s ++ stmts ss

def branches : Else → List String
  | .none => []
  | .last body => counted "else" body.length :: stmts body
  | .elseIf condition body otherwise =>
    counted "elseif" body.length :: (expr condition ++ stmts body ++ branches otherwise)

end

def unit (d : UnitDeclaration) : String :=
  placed ("unit " ++ d.name.name ++ " " ++ d.unit.display) d.name.position

def param (p : Param) : String :=
  placed ("param " ++ p.name.name ++ " " ++ p.type.display) p.name.position

def function (f : Function) : List String :=
  placed ("function " ++ f.name.name ++ " " ++ f.returnType.display) f.name.position ::
    (f.params.map param ++ stmts f.body)

end Outline

/-- The units and the functions in their order, then the statements. -/
def Program.outline (p : Program) : List String :=
  p.unitsInOrder.map Outline.unit ++ p.functionsInOrder.flatMap Outline.function ++
    Outline.counted "top" p.statements.length :: Outline.stmts p.statements

end Mensura
