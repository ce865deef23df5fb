import Mensura.Typing.Program

/-!
What checking looks up in a program: the headers of its functions, and what its units come to. Main statement: two
programs in which the same is found under the same names check expressions and statements in the same way, to the same
types and the same errors, and the whole of them if they list the same definitions in the same order.
-/

namespace Mensura

/-- A function without its body, which no call looks at. -/
def Function.header (f : Function) : Function := { f with body := [] }

/-- By its functions and units, `q` checks as `p` does. -/
structure Program.ChecksAs (q p : Program) : Prop where
  functions : ∀ name, (q.function? name).map Function.header = (p.function? name).map Function.header
  units : ∀ u : UnitExpr, u.expand q.unitTable = u.expand p.unitTable

theorem Program.ChecksAs.refl (p : Program) : p.ChecksAs p := ⟨fun _ => rfl, fun _ => rfl⟩

namespace Program.ChecksAs

variable {p q : Program} (alike : q.ChecksAs p)
include alike

/-- A function is found with the same header, or in neither program. -/
theorem function?_cases (name : String) :
    q.function? name = none ∧ p.function? name = none ∨
      ∃ g f, q.function? name = some g ∧ p.function? name = some f ∧ g.header = f.header := by
  have same := alike.functions name
  generalize q.function? name = g, p.function? name = f at same ⊢
  cases g <;> cases f
  case none.none => exact .inl ⟨rfl, rfl⟩
  case some.some g f => exact .inr ⟨g, f, rfl, rfl, Option.some.inj same⟩
  all_goals cases same

/-! ### Types -/

theorem checkUnit : q.checkUnit = p.checkUnit := by
  funext u position
  unfold Program.checkUnit
  rw [alike.units]

theorem checkType : q.checkType = p.checkType := by
  funext τ position
  cases τ with
  | quantity u => exact congrFun (congrFun alike.checkUnit u) position
  | _ => rfl

theorem sameType : q.sameType = p.sameType := by
  funext position τ σ
  cases τ <;> cases σ
  case quantity.quantity u v => simp only [Program.sameType, UnitExpr.equivalent, alike.units]
  all_goals rfl

theorem expectType : q.expectType = p.expectType := by
  funext expected found position
  simp only [Program.expectType, alike.sameType]

theorem literalType : q.literalType = p.literalType := by
  funext position value
  cases value with
  | int n u | float x u => cases u <;> simp only [Program.literalType, alike.checkUnit]
  | _ => rfl

theorem binaryType : q.binaryType = p.binaryType := by
  funext op position left right
  have onSame (result : Ty) : binaryType?.onSame q position left right result =
      binaryType?.onSame p position left right result := by
    simp only [binaryType?.onSame, alike.sameType]
  have found : q.binaryType? op position left right = p.binaryType? op position left right := by
    cases op <;> cases left <;> cases right <;> first | rfl | exact onSame _
  rw [Program.binaryType, Program.binaryType, found]

theorem resultType? (callee : Builtin) (types : List Ty) (args : List Expr) :
    callee.resultType? q.unitTable types args = callee.resultType? p.unitTable types args := by
  have plain : Builtin.isPlain? q.unitTable = Builtin.isPlain? p.unitTable := by
    funext u
    simp only [Builtin.isPlain?, alike.units]
  have root (u : UnitExpr) : Builtin.rootType? q.unitTable u = Builtin.rootType? p.unitTable u := by
    simp only [Builtin.rootType?, alike.units]
  have power (base exponent : UnitExpr) (written : Option Expr) :
      Builtin.powerType? q.unitTable base exponent written = Builtin.powerType? p.unitTable base exponent written := by
    rw [Builtin.powerType?, Builtin.powerType?, plain]
  cases callee <;> simp only [Builtin.resultType?, root, power]

end Program.ChecksAs

section
variable {p q : Program} {names names' : Context Ty}

mutual

/-- A context matters to an expression for what the names in it mean. -/
theorem Expr.type_congr (alike : q.ChecksAs p) (looked : ∀ name, names'.lookup name = names.lookup name) (e : Expr) :
    e.type q names' = e.type p names := by
  cases e with
  | literal value position => rw [Expr.type, Expr.type, alike.literalType]
  | var name => rw [Expr.type, Expr.type, looked]
  | unary op position operand => rw [Expr.type, Expr.type, Expr.type_congr alike looked operand]
  | binary left op position right =>
    rw [Expr.type, Expr.type, Expr.type_congr alike looked left, Expr.type_congr alike looked right, alike.binaryType]
  | call callee args =>
    simp only [Expr.type, Expr.types_congr alike looked args, alike.resultType?]
    cases Builtin.ofName? callee.name with
    | some builtin => rfl
    | none =>
      obtain ⟨found, found'⟩ | ⟨g, f, found, found', same⟩ := alike.function?_cases callee.name
      · rw [found, found']
      · rw [found, found']
        obtain ⟨name, params, returnType, body⟩ := g
        cases same
        simp only [Expr.matchParams_congr alike looked args]

theorem Expr.types_congr (alike : q.ChecksAs p) (looked : ∀ name, names'.lookup name = names.lookup name)
    (es : List Expr) : Expr.types q names' es = Expr.types p names es := by
  cases es with
  | nil => rfl
  | cons e es => rw [Expr.types, Expr.types, Expr.type_congr alike looked e, Expr.types_congr alike looked es]

theorem Expr.matchParams_congr (alike : q.ChecksAs p) (looked : ∀ name, names'.lookup name = names.lookup name)
    (es : List Expr) (params : List Param) :
    Expr.matchParams q names' es params = Expr.matchParams p names es params := by
  cases es with
  | nil => rfl
  | cons e es =>
    cases params with
    | nil => rfl
    | cons param params =>
      rw [Expr.matchParams, Expr.matchParams, Expr.type_congr alike looked e, alike.expectType,
        Expr.matchParams_congr alike looked es params]

end

end

/-! ### Statements -/

namespace Program.ChecksAs

variable {p q : Program} (alike : q.ChecksAs p)
include alike

theorem typeOf : q.typeOf = p.typeOf := by
  funext e
  simp only [Program.typeOf, Expr.type_congr alike fun _ => rfl]

theorem checkCondition : q.checkCondition = p.checkCondition := by
  funext condition
  simp only [Program.checkCondition, alike.typeOf, alike.expectType]

theorem checkDeclaration : q.checkDeclaration = p.checkDeclaration := by
  funext name type value
  simp only [Program.checkDeclaration, alike.typeOf, alike.checkType, alike.expectType]

theorem checkAssignment : q.checkAssignment = p.checkAssignment := by
  funext name value
  simp only [Program.checkAssignment, alike.typeOf, alike.expectType]

theorem checkReturn : q.checkReturn = p.checkReturn := by
  funext position value
  simp only [Program.checkReturn, alike.typeOf, alike.sameType]

end Program.ChecksAs

section
variable {p q : Program}

mutual

theorem Stmt.check_congr (alike : q.ChecksAs p) (s : Stmt) : s.check q = s.check p := by
  cases s with
  | declare name type value => rw [Stmt.check, Stmt.check, alike.checkDeclaration]
  | assign name value => rw [Stmt.check, Stmt.check, alike.checkAssignment]
  | ifElse condition body otherwise =>
    rw [Stmt.check, Stmt.check, alike.checkCondition, Stmt.checkAll_congr alike body,
      Else.check_congr alike otherwise]
  | loop condition body => rw [Stmt.check, Stmt.check, alike.checkCondition, Stmt.checkAll_congr alike body]
  | ret position value => rw [Stmt.check, Stmt.check, alike.checkReturn]
  | call callee args => rw [Stmt.check, Stmt.check, alike.typeOf]
  | block body => rw [Stmt.check, Stmt.check, Stmt.checkAll_congr alike body]

theorem Stmt.checkAll_congr (alike : q.ChecksAs p) (ss : List Stmt) : Stmt.checkAll q ss = Stmt.checkAll p ss := by
  cases ss with
  | nil => rfl
  | cons s ss => rw [Stmt.checkAll, Stmt.checkAll, Stmt.check_congr alike s, Stmt.checkAll_congr alike ss]

theorem Else.check_congr (alike : q.ChecksAs p) (o : Else) : o.check q = o.check p := by
  cases o with
  | none => rfl
  | last body => rw [Else.check, Else.check, Stmt.checkAll_congr alike body]
  | elseIf condition body otherwise =>
    rw [Else.check, Else.check, alike.checkCondition, Stmt.checkAll_congr alike body,
      Else.check_congr alike otherwise]

end

end

/-! ### Programs -/

namespace Program.ChecksAs

variable {p q : Program} (alike : q.ChecksAs p)
include alike

theorem checkFunction : q.checkFunction = p.checkFunction := by
  funext f
  simp only [Program.checkFunction, Program.parameterTypes, alike.checkType, Stmt.checkAll_congr alike]

theorem checkUnitDeclaration : q.checkUnitDeclaration = p.checkUnitDeclaration := by
  funext d
  simp only [Program.checkUnitDeclaration, alike.checkUnit]

theorem checkMain : q.checkMain = p.checkMain := by
  unfold Program.checkMain
  obtain ⟨found, found'⟩ | ⟨g, f, found, found', same⟩ := alike.function?_cases "main"
  · rw [found, found']
  · rw [found, found']
    obtain ⟨name, params, returnType, body⟩ := g
    cases same
    rfl

theorem check (units : q.unitsInOrder = p.unitsInOrder) (statements : q.statements = p.statements)
    (functions : q.functionsInOrder = p.functionsInOrder) : q.check = p.check := by
  simp only [Program.check, units, statements, functions, alike.checkUnitDeclaration, Stmt.checkAll_congr alike,
    alike.checkFunction, alike.checkMain]

end Program.ChecksAs

end Mensura
