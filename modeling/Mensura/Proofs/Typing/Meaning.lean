import Mensura.Proofs.Unit.Equivalence
import Mensura.Typing.Program

/-!
What types mean. Two units mean the same if they have the same dimension, so the meaning of a type forgets how
its unit is written, and it is worked out over the integers. The operators and the built-in functions act on
meanings. Main statements: a type whose unit can be expanded means what its expansion says, and a type means
one thing only.
-/

namespace Mensura

/-- The sort of a value and, for a number, its dimension. -/
inductive Meaning where
  | quantity (dimension : Dimension)
  | bool
  | text
  | void
  deriving DecidableEq

/-- Half a dimension, if all its powers are even. -/
def Dimension.half? (d : Dimension) : Option Dimension :=
  if ∀ b, d b % 2 = 0 then some fun b => d b / 2 else none

/-- What a type means under a table. A unit may be impossible to expand and still have a meaning. -/
inductive Ty.Means (table : UnitTable) : Ty → Meaning → Prop where
  | quantity {u : UnitExpr} {d : Dimension} (dimension : HasDimension table u.factors d) :
      Ty.Means table (.quantity u) (.quantity d)
  | bool : Ty.Means table .bool .bool
  | text : Ty.Means table .text .text
  | void : Ty.Means table .void .void

/-- The dimension of a unit that can be expanded. -/
def UnitExpr.dimension? (table : UnitTable) (u : UnitExpr) : Option Dimension :=
  (u.expand table).toOption.map fun r => .ofFactors r.factors

/-- What a type means whose unit can be expanded. -/
def Ty.meaning (table : UnitTable) : Ty → Option Meaning
  | quantity u => (u.dimension? table).map .quantity
  | bool => some .bool
  | text => some .text
  | void => some .void

/-- What a constant means. A number without a unit has no dimension. -/
def Literal.meaning (table : UnitTable) : Literal → Option Meaning
  | int _ (some u) | float _ (some u) => (Ty.quantity u).meaning table
  | int _ none | float _ none => some (.quantity 0)
  | bool _ => some .bool
  | text _ => some .text

def UnaryOp.meaning : UnaryOp → Meaning → Option Meaning
  | minus, .quantity d => some (.quantity d)
  | not, .bool => some .bool
  | _, _ => none

namespace BinaryOp

/-- The meaning of an operation that takes two numbers of one dimension. -/
def onSame (d e : Dimension) (result : Meaning) : Option Meaning := if d = e then some result else none

def meaning : BinaryOp → Meaning → Meaning → Option Meaning
  | plus, .text, .text => some .text
  | plus, .quantity d, .quantity e | minus, .quantity d, .quantity e => onSame d e (.quantity d)
  | star, .quantity d, .quantity e => some (.quantity (d + e))
  | slash, .quantity d, .quantity e => some (.quantity (d - e))
  | greater, .quantity d, .quantity e | greaterEqual, .quantity d, .quantity e
  | less, .quantity d, .quantity e | lessEqual, .quantity d, .quantity e
  | equal, .quantity d, .quantity e | notEqual, .quantity d, .quantity e => onSame d e .bool
  | equal, .bool, .bool | notEqual, .bool, .bool
  | equal, .text, .text | notEqual, .text, .text => some .bool
  | or, .bool, .bool | and, .bool, .bool => some .bool
  | _, _, _ => none

end BinaryOp

/-- The meaning of a call to a built-in function, from those of the arguments. The dimension of a power depends
on the exponent as it is written, unless the base is a plain number. -/
def Builtin.meaning (args : List Expr) : Builtin → List Meaning → Option Meaning
  | print, [.void] => none
  | print, [_] => some .void
  | sqrt, [.quantity d] => d.half?.map .quantity
  | power, [.quantity d, .quantity e] =>
    if e ≠ 0 then none
    else if d = 0 then some (.quantity 0)
    else (args[1]?.bind Expr.integer?).map fun n => .quantity (n.toInt • d)
  | _, _ => none

section
variable {table : UnitTable} {τ : Ty} {m n : Meaning}

theorem Ty.means_of_meaning (h : τ.meaning table = some m) : τ.Means table m := by
  cases τ with
  | quantity u =>
    obtain ⟨d, found, rfl⟩ := Option.map_eq_some_iff.mp h
    obtain ⟨r, expansion, rfl⟩ := Option.map_eq_some_iff.mp found
    exact .quantity (UnitExpr.expand_eq_ok (toOption_eq_some.mp expansion)).1
  | bool => cases h; exact .bool
  | text => cases h; exact .text
  | void => cases h; exact .void

theorem Ty.Means.unique (hm : τ.Means table m) (hn : τ.Means table n) : m = n := by
  cases hm <;> cases hn
  case quantity.quantity hd _ he => rw [hd.unique he]
  all_goals rfl

/-- Equivalent units can both be expanded, and they mean the same. -/
theorem Ty.meaning_of_equivalent {u v : UnitExpr} (h : u.equivalent table v = .ok true) :
    ∃ m, (Ty.quantity u).meaning table = some m ∧ (Ty.quantity v).meaning table = some m := by
  obtain ⟨d, hu, hv⟩ := UnitExpr.dimension_of_equivalent h
  obtain ⟨x, left, h⟩ := bind_eq_ok.mp h
  obtain ⟨y, right, -⟩ := bind_eq_ok.mp h
  refine ⟨.quantity d, ?_, ?_⟩
  · simp [meaning, UnitExpr.dimension?, left, Except.toOption, hu.unique (UnitExpr.expand_eq_ok left).1]
  · simp [meaning, UnitExpr.dimension?, right, Except.toOption, hv.unique (UnitExpr.expand_eq_ok right).1]

theorem Builtin.length_of_meaning {callee : Builtin} {args : List Expr} {ms : List Meaning} {k : Meaning}
    (h : callee.meaning args ms = some k) : ms.length = callee.arity := by
  unfold Builtin.meaning at h
  split at h <;> first | rfl | cases h

end

end Mensura
