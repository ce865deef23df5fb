import Mensura.Proofs.Token.Spelling
import Mensura.Program.Printer

/-!
Programs that differ in nothing but the places of their names and operators. Functions and units are looked up by
their names, so that the order in which they are kept is no part of a program.
-/

namespace Mensura

/-- The name, with its place forgotten. -/
def Symbol.placeless (s : Symbol) : Symbol := ⟨s.name, .start⟩

mutual

def Expr.placeless : Expr → Expr
  | .literal value _ => .literal value .start
  | .unary op _ operand => .unary op .start operand.placeless
  | .binary left op _ right => .binary left.placeless op .start right.placeless
  | .call callee args => .call callee.placeless (Expr.allPlaceless args)
  | .var name => .var name.placeless

def Expr.allPlaceless : List Expr → List Expr
  | [] => []
  | e :: es => e.placeless :: Expr.allPlaceless es

end

mutual

def Stmt.placeless : Stmt → Stmt
  | .declare name type value => .declare name.placeless type value.placeless
  | .assign name value => .assign name.placeless value.placeless
  | .ifElse condition body otherwise =>
    .ifElse condition.placeless (Stmt.allPlaceless body) otherwise.placeless
  | .loop condition body => .loop condition.placeless (Stmt.allPlaceless body)
  | .ret _ value => .ret .start (value.map Expr.placeless)
  | .call callee args => .call callee.placeless (Expr.allPlaceless args)
  | .block body => .block (Stmt.allPlaceless body)

def Stmt.allPlaceless : List Stmt → List Stmt
  | [] => []
  | s :: ss => s.placeless :: Stmt.allPlaceless ss

def Else.placeless : Else → Else
  | .none => .none
  | .last body => .last (Stmt.allPlaceless body)
  | .elseIf condition body otherwise => .elseIf condition.placeless (Stmt.allPlaceless body) otherwise.placeless

end

theorem Expr.allPlaceless_eq_map : (es : List Expr) → Expr.allPlaceless es = es.map Expr.placeless
  | [] => rfl
  | e :: es => by rw [Expr.allPlaceless, List.map_cons, Expr.allPlaceless_eq_map es]

theorem Stmt.allPlaceless_eq_map : (ss : List Stmt) → Stmt.allPlaceless ss = ss.map Stmt.placeless
  | [] => rfl
  | s :: ss => by rw [Stmt.allPlaceless, List.map_cons, Stmt.allPlaceless_eq_map ss]

def Param.placeless (p : Param) : Param := ⟨p.name.placeless, p.type⟩

def Function.placeless (f : Function) : Function :=
  ⟨f.name.placeless, f.params.map Param.placeless, f.returnType, Stmt.allPlaceless f.body⟩

def UnitDeclaration.placeless (d : UnitDeclaration) : UnitDeclaration := ⟨d.name.placeless, d.unit⟩

/-- The program with all places forgotten. -/
def Program.placeless (p : Program) : Program where
  functions := p.functions.map Function.placeless
  units := p.units.map UnitDeclaration.placeless
  statements := Stmt.allPlaceless p.statements

/-- The same functions and units, in whatever order, and the same statements, but for their places. -/
structure Program.Alike (p q : Program) : Prop where
  functions : (p.functions.map Function.placeless).Perm (q.functions.map Function.placeless)
  units : (p.units.map UnitDeclaration.placeless).Perm (q.units.map UnitDeclaration.placeless)
  statements : Stmt.allPlaceless p.statements = Stmt.allPlaceless q.statements

/-! ### Plain constants -/

/-- No floating-point number, and no text with other characters than those that are printed and read back. -/
def Literal.isPlain : Literal → Bool
  | .float .. => false
  | .text s => s.toList.all Text.isPlain
  | .int .. | .bool _ => true

mutual

def Expr.isPlain : Expr → Bool
  | .literal value _ => value.isPlain
  | .unary _ _ operand => operand.isPlain
  | .binary left _ _ right => left.isPlain && right.isPlain
  | .call _ args => Expr.allPlain args
  | .var _ => true

def Expr.allPlain : List Expr → Bool
  | [] => true
  | e :: es => e.isPlain && Expr.allPlain es

end

mutual

def Stmt.isPlain : Stmt → Bool
  | .declare _ _ value | .assign _ value => value.isPlain
  | .ifElse condition body otherwise => condition.isPlain && Stmt.allPlain body && otherwise.isPlain
  | .loop condition body => condition.isPlain && Stmt.allPlain body
  | .ret _ value => value.all Expr.isPlain
  | .call _ args => Expr.allPlain args
  | .block body => Stmt.allPlain body

def Stmt.allPlain : List Stmt → Bool
  | [] => true
  | s :: ss => s.isPlain && Stmt.allPlain ss

def Else.isPlain : Else → Bool
  | .none => true
  | .last body => Stmt.allPlain body
  | .elseIf condition body otherwise => condition.isPlain && Stmt.allPlain body && otherwise.isPlain

end

theorem Stmt.allPlain_eq_all : (ss : List Stmt) → Stmt.allPlain ss = ss.all Stmt.isPlain
  | [] => rfl
  | s :: ss => by rw [Stmt.allPlain, List.all_cons, Stmt.allPlain_eq_all ss]

/-- All constants of a program are plain. -/
def Program.isPlain (p : Program) : Bool :=
  p.functions.all (fun f => Stmt.allPlain f.body) && Stmt.allPlain p.statements

end Mensura
