import Mensura.Scope.CallStack
import Mensura.Typing.Error

/-!
The types of expressions. The names in scope have types, functions and units come from the program. Numbers
are added and compared in the same unit only, where units count as the same if they measure the same thing;
multiplication and division combine the units.
-/

namespace Mensura

namespace Program

/-- Makes sure that a unit can be expanded. -/
def checkUnit (p : Program) (u : UnitExpr) (position : Position) : Except TypingError Unit :=
  match u.expand p.unitTable with
  | .ok _ => .ok ()
  | .error e => .error ⟨.unit e, position⟩

def checkType (p : Program) (type : Ty) (position : Position) : Except TypingError Unit :=
  match type with
  | .quantity u => p.checkUnit u position
  | _ => .ok ()

/-- Whether two types are the same, units being the same if they measure the same thing. -/
def sameType (p : Program) (position : Position) : Ty → Ty → Except TypingError Bool
  | .quantity u, .quantity v => (u.equivalent p.unitTable v).mapError fun e => ⟨.unit e, position⟩
  | .bool, .bool => .ok true
  | .text, .text => .ok true
  | .void, .void => .ok true
  | _, _ => .ok false

def expectType (p : Program) (expected found : Ty) (position : Position) : Except TypingError Unit := do
  if ← p.sameType position expected found then return ()
  throw ⟨.mismatch expected found, position⟩

/-- The type of a unary operation. -/
def unaryType (op : UnaryOp) (position : Position) (operand : Ty) : Except TypingError Ty :=
  match op, operand with
  | .minus, .quantity u => .ok (.quantity u)
  | .not, .bool => .ok .bool
  | _, _ => .error ⟨.notPermitted (.unary op) [operand], position⟩

/-- The type of a binary operation, or nothing where it is not permitted. -/
def binaryType? (p : Program) (op : BinaryOp) (position : Position) (left right : Ty) :
    Except TypingError (Option Ty) :=
  match op, left, right with
  | .plus, .text, .text => .ok (some .text)
  | .plus, .quantity _, .quantity _ | .minus, .quantity _, .quantity _ => onSame left
  | .star, .quantity u, .quantity v => combined (u.multiply v)
  | .slash, .quantity u, .quantity v => combined (u.divide v)
  | .greater, .quantity _, .quantity _ | .greaterEqual, .quantity _, .quantity _
  | .less, .quantity _, .quantity _ | .lessEqual, .quantity _, .quantity _
  | .equal, .quantity _, .quantity _ | .notEqual, .quantity _, .quantity _
  | .equal, .bool, .bool | .notEqual, .bool, .bool
  | .equal, .text, .text | .notEqual, .text, .text => onSame .bool
  | .or, .bool, .bool | .and, .bool, .bool => .ok (some .bool)
  | _, _, _ => .ok none
where
  /-- The type `result` if the operands have the same type. -/
  onSame (result : Ty) : Except TypingError (Option Ty) := do
    if ← p.sameType position left right then return some result else return none
  combined : Except UnitError UnitExpr → Except TypingError (Option Ty)
    | .ok u => .ok (some (.quantity u))
    | .error e => .error ⟨.unit e, position⟩

def binaryType (p : Program) (op : BinaryOp) (position : Position) (left right : Ty) :
    Except TypingError Ty := do
  match ← p.binaryType? op position left right with
  | some type => return type
  | none => throw ⟨.notPermitted (.binary op) [left, right], position⟩

/-- The type of a constant. A number without a unit is a plain number. -/
def literalType (p : Program) (position : Position) : Literal → Except TypingError Ty
  | .int _ (some u) | .float _ (some u) => do
    p.checkUnit u position
    return .quantity u
  | .int _ none | .float _ none => .ok (.quantity .dimensionless)
  | .bool _ => .ok .bool
  | .text _ => .ok .text

end Program

mutual

/-- The type of an expression. The built-in functions come before those of the program. -/
def Expr.type (p : Program) (names : Context Ty) : Expr → Except TypingError Ty
  | .literal value position => p.literalType position value
  | .var name =>
    match names.lookup name.name with
    | some type => .ok type
    | none => .error ⟨.variableUndeclared name.name, name.position⟩
  | .unary op position operand => do Program.unaryType op position (← operand.type p names)
  | .binary left op position right => do
    let l ← left.type p names
    let r ← right.type p names
    p.binaryType op position l r
  | .call callee args =>
    match Builtin.ofName? callee.name with
    | some builtin => do
      if args.length ≠ builtin.arity then
        throw ⟨.argumentCount callee.name builtin.arity args.length, callee.position⟩
      let types ← Expr.types p names args
      match builtin.resultType? p.unitTable types args with
      | some type => return type
      | none => throw ⟨.notPermitted (.call builtin) types, callee.position⟩
    | none =>
      match p.function? callee.name with
      | some f => do
        if args.length ≠ f.params.length then
          throw ⟨.argumentCount callee.name f.params.length args.length, callee.position⟩
        Expr.matchParams p names args f.params
        return f.returnType
      | none => .error ⟨.functionUndeclared callee.name, callee.position⟩

def Expr.types (p : Program) (names : Context Ty) : List Expr → Except TypingError (List Ty)
  | [] => .ok []
  | e :: es => do
    let type ← e.type p names
    return type :: (← Expr.types p names es)

/-- Makes sure that arguments have the types of the parameters. -/
def Expr.matchParams (p : Program) (names : Context Ty) : List Expr → List Param → Except TypingError Unit
  | e :: es, param :: params => do
    p.expectType param.type (← e.type p names) e.position
    Expr.matchParams p names es params
  | _, _ => .ok ()

end

end Mensura
