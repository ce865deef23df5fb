import Mathlib.Tactic.MkIffOfInductiveProp
import Mensura.Proofs.Program.Arrangement
import Mensura.Proofs.Typing.Atomicity

/-!
Checking does not look at places. In a program without places everything is accepted that is accepted in the
program itself, and everything is refused for the same fault. The check of a function does not depend on what is
in scope around it either. Main statement: whether a program is accepted depends on what its names stand for and
on its statements, not on the order of its functions and units.
-/

namespace Mensura

/-- The error, with its place forgotten. -/
def TypingError.placeless (e : TypingError) : TypingError := ⟨e.fault, .start⟩

theorem Expr.position_placeless : (e : Expr) → e.placeless.position = .start
  | .literal _ _ => rfl
  | .unary _ _ _ => rfl
  | .binary left _ _ _ => left.position_placeless
  | .call _ _ => rfl
  | .var _ => rfl

theorem Expr.integer?_placeless (e : Expr) : e.placeless.integer? = e.integer? := by
  fun_induction Expr.integer? e with
  | case1 => rfl
  | case2 _ operand n found ih => simp only [Expr.placeless, Expr.integer?, ih, found]
  | case3 _ operand missing ih => simp only [Expr.placeless, Expr.integer?, ih, missing]
  | case4 e notInt notMinus =>
    cases e with
    | literal value position =>
      cases value with
      | int n unit => exact absurd rfl (notInt _ _ _)
      | _ => rfl
    | unary op position operand =>
      cases op with
      | minus => exact absurd rfl (notMinus _ _)
      | not => rfl
    | _ => rfl

namespace Program.Forgets

variable {p r : Program} (forgets : p.Forgets r)
include forgets

theorem checkUnit (u : UnitExpr) (position : Position) :
    r.checkUnit u .start = (p.checkUnit u position).mapError TypingError.placeless := by
  unfold Program.checkUnit
  rw [forgets.units]
  cases u.expand p.unitTable <;> rfl

theorem checkType (τ : Ty) (position : Position) :
    r.checkType τ .start = (p.checkType τ position).mapError TypingError.placeless := by
  cases τ with
  | quantity u => exact forgets.checkUnit u position
  | _ => rfl

theorem sameType (τ σ : Ty) (position : Position) :
    r.sameType .start τ σ = (p.sameType position τ σ).mapError TypingError.placeless := by
  cases τ <;> cases σ
  case quantity.quantity u v =>
    simp only [Program.sameType, UnitExpr.equivalent, forgets.units]
    generalize (do
      let x ← u.expand p.unitTable
      let y ← v.expand p.unitTable
      x.sameFactors y) = result
    cases result <;> rfl
  all_goals rfl

theorem expectType (expected found : Ty) (position : Position) :
    r.expectType expected found .start = (p.expectType expected found position).mapError TypingError.placeless := by
  unfold Program.expectType
  rw [mapError_bind, ← forgets.sameType]
  congr 1
  funext same
  cases same <;> rfl

theorem literalType (value : Literal) (position : Position) :
    r.literalType .start value = (p.literalType position value).mapError TypingError.placeless := by
  have measured (u : UnitExpr) : (do r.checkUnit u .start; return .quantity u) =
      (do p.checkUnit u position; return Ty.quantity u).mapError TypingError.placeless := by
    rw [mapError_bind, ← forgets.checkUnit]
    rfl
  cases value with
  | int n u =>
    cases u with
    | none => rfl
    | some u => exact measured u
  | float x u =>
    cases u with
    | none => rfl
    | some u => exact measured u
  | _ => rfl

theorem binaryType (op : BinaryOp) (left right : Ty) (position : Position) :
    r.binaryType op .start left right = (p.binaryType op position left right).mapError TypingError.placeless := by
  have onSame (result : Ty) : binaryType?.onSame r .start left right result =
      (binaryType?.onSame p position left right result).mapError TypingError.placeless := by
    unfold binaryType?.onSame
    rw [mapError_bind, ← forgets.sameType]
    congr 1
    funext same
    cases same <;> rfl
  have combined (result : Except UnitError UnitExpr) : binaryType?.combined .start result =
      (binaryType?.combined position result).mapError TypingError.placeless := by
    cases result <;> rfl
  have found : r.binaryType? op .start left right =
      (p.binaryType? op position left right).mapError TypingError.placeless := by
    cases op <;> cases left <;> cases right <;> first | rfl | exact onSame _ | exact combined _
  unfold Program.binaryType
  rw [mapError_bind, ← found]
  congr 1
  funext type
  cases type <;> rfl

/-- Of the arguments only the numbers count that are written out. -/
theorem resultType? (callee : Builtin) (types : List Ty) (args : List Expr) :
    callee.resultType? r.unitTable types (Expr.allPlaceless args) = callee.resultType? p.unitTable types args := by
  have plain (u : UnitExpr) : Builtin.isPlain? r.unitTable u = Builtin.isPlain? p.unitTable u := by
    simp only [Builtin.isPlain?, forgets.units]
  have root (u : UnitExpr) : Builtin.rootType? r.unitTable u = Builtin.rootType? p.unitTable u := by
    simp only [Builtin.rootType?, forgets.units]
  have power (base exponent : UnitExpr) :
      Builtin.powerType? r.unitTable base exponent (Expr.allPlaceless args)[1]? =
        Builtin.powerType? p.unitTable base exponent args[1]? := by
    rw [Expr.allPlaceless_eq_map, List.getElem?_map]
    cases args[1]? with
    | none => simp only [Option.map_none, Builtin.powerType?, plain]
    | some e =>
      simp only [Option.map_some, Builtin.powerType?, Option.bind_eq_bind, Option.bind_some, Expr.integer?_placeless,
        plain]
  cases callee <;> simp only [Builtin.resultType?, root, power]

end Program.Forgets

theorem Program.unaryType_placeless (op : UnaryOp) (position : Position) (operand : Ty) :
    unaryType op .start operand = (unaryType op position operand).mapError TypingError.placeless := by
  cases op <;> cases operand <;> rfl

/-! ### Expressions -/

section
variable {p r : Program} {names : Context Ty}

mutual

theorem Expr.type_placeless (forgets : p.Forgets r) (e : Expr) :
    e.placeless.type r names = (e.type p names).mapError TypingError.placeless := by
  cases e with
  | literal value position => exact forgets.literalType value position
  | var name =>
    simp only [Expr.placeless, Expr.type, Symbol.placeless]
    cases names.lookup name.name <;> rfl
  | unary op position operand =>
    simp only [Expr.placeless, Expr.type, mapError_bind, Expr.type_placeless forgets operand,
      Program.unaryType_placeless op position]
  | binary left op position right =>
    simp only [Expr.placeless, Expr.type, mapError_bind, Expr.type_placeless forgets left,
      Expr.type_placeless forgets right, forgets.binaryType op _ _ position]
  | call callee args =>
    have length : (Expr.allPlaceless args).length = args.length := by
      rw [Expr.allPlaceless_eq_map, List.length_map]
    simp only [Expr.placeless, Expr.type, Symbol.placeless, length]
    cases Builtin.ofName? callee.name with
    | some builtin =>
      dsimp only
      split
      · rfl
      · simp only [mapError_bind, Expr.types_placeless forgets args, forgets.resultType?]
        congr 1
        funext types
        cases builtin.resultType? p.unitTable types args <;> rfl
    | none =>
      rw [forgets.functions]
      cases p.function? callee.name with
      | none => rfl
      | some f =>
        simp only [Option.map_some, Function.placeless, List.length_map]
        split
        · rfl
        · simp only [mapError_bind, Expr.matchParams_placeless forgets args f.params]
          rfl

theorem Expr.types_placeless (forgets : p.Forgets r) (es : List Expr) :
    Expr.types r names (Expr.allPlaceless es) = (Expr.types p names es).mapError TypingError.placeless := by
  cases es with
  | nil => rfl
  | cons e es =>
    simp only [Expr.allPlaceless, Expr.types, mapError_bind, Expr.type_placeless forgets e,
      Expr.types_placeless forgets es]
    rfl

theorem Expr.matchParams_placeless (forgets : p.Forgets r) (es : List Expr) (params : List Param) :
    Expr.matchParams r names (Expr.allPlaceless es) (params.map Param.placeless) =
      (Expr.matchParams p names es params).mapError TypingError.placeless := by
  cases es with
  | nil => rfl
  | cons e es =>
    cases params with
    | nil => rfl
    | cons param params =>
      simp only [Expr.allPlaceless, List.map_cons, Expr.matchParams, mapError_bind, Param.placeless,
        Expr.position_placeless, Expr.type_placeless forgets e, forgets.expectType _ _ e.position,
        Expr.matchParams_placeless forgets es params]

end

end

/-! ### Statements -/

/-- The same names at the present place and the same function, but for its places. -/
structure Checker.Alike (c d : Checker) : Prop where
  names : d.names.current = c.names.current
  function : d.function = c.function.map Function.placeless

theorem Checker.Alike.modify {c d : Checker} (alike : c.Alike d) (f : Context Ty → Context Ty) :
    Checker.Alike { c with names := c.names.modify f } { d with names := d.names.modify f } :=
  ⟨by rw [CallStack.current_modify, CallStack.current_modify, alike.names], alike.function⟩

/-- Both checks find the same, but for the place of an error. -/
def Check.Echoes {α : Type} (x y : Check α) : Prop := Mensura.Echoes Checker.Alike TypingError.placeless x y

namespace Check.Echoes

variable {α β : Type}

theorem pure (a : α) : Check.Echoes (Pure.pure a) (Pure.pure a) := Mensura.Echoes.pure a

theorem bind {x y : Check α} {f g : α → Check β} (first : Check.Echoes x y) (rest : ∀ a, Check.Echoes (f a) (g a)) :
    Check.Echoes (x >>= f) (y >>= g) := Mensura.Echoes.bind first rest

theorem ofExcept {x y : Except TypingError α} (same : y = x.mapError TypingError.placeless) :
    Check.Echoes (Check.ofExcept x) (Check.ofExcept y) := fun _ _ h => ⟨same, h⟩

theorem fail (fault : TypingFault) (position : Position) :
    Check.Echoes (Check.fail fault position) (Check.fail fault .start) := Mensura.Echoes.throw _

theorem context {f g : Context Ty → Check α} (h : ∀ names, Check.Echoes (f names) (g names)) :
    Check.Echoes (Check.context >>= f) (Check.context >>= g) := by
  have names : Check.Echoes Check.context Check.context :=
    fun c d alike => ⟨congrArg Except.ok alike.names, alike⟩
  exact names.bind h

theorem declare (name : String) (type : Ty) : Check.Echoes (Check.declare name type) (Check.declare name type) :=
  fun _ _ alike => ⟨rfl, alike.modify (·.declare name type)⟩

theorem inBlock {x y : Check Unit} (h : Check.Echoes x y) : Check.Echoes (Check.inBlock x) (Check.inBlock y) :=
  Mensura.Echoes.around (Check.run_inBlock x) (Check.run_inBlock y) h (fun _ _ alike => alike.modify .push)
    fun _ _ alike => alike.modify .pop

end Check.Echoes

section
variable {p r : Program}

namespace Program.Forgets

variable (forgets : p.Forgets r)
include forgets

theorem typeOf (e : Expr) : Check.Echoes (p.typeOf e) (r.typeOf e.placeless) :=
  .context fun _ => .ofExcept (e.type_placeless forgets)

theorem checkCondition (condition : Expr) :
    Check.Echoes (p.checkCondition condition) (r.checkCondition condition.placeless) := by
  apply Check.Echoes.bind (forgets.typeOf condition)
  intro type
  rw [condition.position_placeless]
  exact .ofExcept (forgets.expectType _ _ _)

theorem checkDeclaration (name : Symbol) (type : Ty) (value : Expr) :
    Check.Echoes (p.checkDeclaration name type value) (r.checkDeclaration name.placeless type value.placeless) := by
  refine .context fun names => ?_
  simp only [Symbol.placeless, value.position_placeless]
  cases names.declares name.name with
  | true => exact .fail _ _
  | false =>
    apply Check.Echoes.bind (.ofExcept (forgets.checkType type name.position))
    intro _
    apply Check.Echoes.bind (forgets.typeOf value)
    intro found
    exact .bind (.ofExcept (forgets.expectType type found value.position)) fun _ => .declare name.name type

theorem checkAssignment (name : Symbol) (value : Expr) :
    Check.Echoes (p.checkAssignment name value) (r.checkAssignment name.placeless value.placeless) := by
  refine .context fun names => ?_
  simp only [Symbol.placeless, value.position_placeless]
  cases names.lookup name.name with
  | none => exact .fail _ _
  | some type => exact .bind (forgets.typeOf value) fun found => .ofExcept (forgets.expectType type found _)

theorem checkReturn (position : Position) (value : Option Expr) :
    Check.Echoes (p.checkReturn position value) (r.checkReturn .start (value.map Expr.placeless)) := by
  have compared (found : Ty) : Check.Echoes (do
      let function := (← get).function
      let expected := (function.map Function.returnType).getD .void
      if ← Check.ofExcept (p.sameType position expected found) then return ()
      let name := (function.map (·.name.name)).getD ""
      Check.fail (.returnMismatch name expected found) position) (do
      let function := (← get).function
      let expected := (function.map Function.returnType).getD .void
      if ← Check.ofExcept (r.sameType .start expected found) then return ()
      let name := (function.map (·.name.name)).getD ""
      Check.fail (.returnMismatch name expected found) .start) := by
    apply Mensura.Echoes.get
    intro c d alike
    have expected : d.function.map Function.returnType = c.function.map Function.returnType := by
      rw [alike.function, Option.map_map]
      rfl
    have name : d.function.map (·.name.name) = c.function.map (·.name.name) := by
      rw [alike.function, Option.map_map]
      rfl
    simp only [expected, name]
    apply Check.Echoes.bind (.ofExcept (forgets.sameType _ found position))
    intro same
    cases same with
    | true => exact .pure _
    | false => exact .fail _ _
  cases value with
  | some e => exact .bind (forgets.typeOf e) compared
  | none => exact compared .void

end Program.Forgets

mutual

theorem Stmt.check_placeless (forgets : p.Forgets r) (s : Stmt) : Check.Echoes (s.check p) (s.placeless.check r) := by
  cases s with
  | declare name type value => exact forgets.checkDeclaration name type value
  | assign name value => exact forgets.checkAssignment name value
  | ifElse condition body otherwise =>
    simp only [Stmt.placeless, Stmt.check]
    apply Check.Echoes.bind (forgets.checkCondition condition)
    intro _
    exact .bind (.inBlock (Stmt.checkAll_placeless forgets body)) fun _ => Else.check_placeless forgets otherwise
  | loop condition body =>
    simp only [Stmt.placeless, Stmt.check]
    exact .bind (forgets.checkCondition condition) fun _ => .inBlock (Stmt.checkAll_placeless forgets body)
  | ret position value => exact forgets.checkReturn position value
  | call callee args =>
    simp only [Stmt.placeless, Stmt.check]
    exact .bind (forgets.typeOf (.call callee args)) fun _ => .pure _
  | block body =>
    simp only [Stmt.placeless, Stmt.check]
    exact .inBlock (Stmt.checkAll_placeless forgets body)

theorem Stmt.checkAll_placeless (forgets : p.Forgets r) (ss : List Stmt) :
    Check.Echoes (Stmt.checkAll p ss) (Stmt.checkAll r (Stmt.allPlaceless ss)) := by
  cases ss with
  | nil => exact .pure _
  | cons s ss =>
    simp only [Stmt.allPlaceless, Stmt.checkAll]
    exact .bind (Stmt.check_placeless forgets s) fun _ => Stmt.checkAll_placeless forgets ss

theorem Else.check_placeless (forgets : p.Forgets r) (o : Else) : Check.Echoes (o.check p) (o.placeless.check r) := by
  cases o with
  | none => exact .pure _
  | last body =>
    simp only [Else.placeless, Else.check]
    exact .inBlock (Stmt.checkAll_placeless forgets body)
  | elseIf condition body otherwise =>
    simp only [Else.placeless, Else.check]
    apply Check.Echoes.bind (forgets.checkCondition condition)
    intro _
    exact .bind (.inBlock (Stmt.checkAll_placeless forgets body)) fun _ => Else.check_placeless forgets otherwise

end

/-! ### Functions and programs -/

theorem Check.run_ofExcept {α β : Type} (result : Except TypingError α) (f : α → Check β) (c : Checker) :
    (Check.ofExcept result >>= f).run.run c =
      match result with
      | .ok a => (f a).run.run c
      | .error e => (.error e, c) := by
  cases result <;> rfl

namespace Program

/-- Every part of a program is accepted on its own. -/
@[mk_iff accepted_iff_parts]
structure Accepted (p : Program) : Prop where
  units : ∀ d ∈ p.units, ((p.checkUnitDeclaration d).run.run .start).1 = .ok ()
  statements : ((Stmt.checkAll p p.statements).run.run .start).1 = .ok ()
  functions : ∀ f ∈ p.functions, ((p.checkFunction f).run.run .start).1 = .ok ()
  main : (p.checkMain.run.run .start).1 = .ok ()

theorem Forgets.parameterTypes (forgets : p.Forgets r) (f : Function) :
    r.parameterTypes f.placeless = (p.parameterTypes f).mapError TypingError.placeless := by
  unfold Program.parameterTypes
  apply foldlM_map_mapError
  intro scope param
  have type := forgets.checkType param.type param.name.position
  by_cases repeated : scope.contains param.name.name = true
  · rw [if_pos repeated, if_pos (show scope.contains param.placeless.name.name = true from repeated)]
    rfl
  · rw [if_neg repeated, if_neg (show ¬ scope.contains param.placeless.name.name = true from repeated)]
    simp only [Param.placeless, Symbol.placeless, type, mapError_bind]
    rfl

/-- What comes of the check of a function does not depend on what is in scope around it. -/
theorem Forgets.checkFunction (forgets : p.Forgets r) (f : Function) (c d : Checker) :
    ((r.checkFunction f.placeless).run.run d).1 =
      ((p.checkFunction f).run.run c).1.mapError TypingError.placeless := by
  simp only [Program.checkFunction, Check.run_ofExcept, forgets.parameterTypes]
  cases p.parameterTypes f with
  | error e => rfl
  | ok scope =>
    simp only [Except.mapError, Function.placeless, Symbol.placeless, forgets.checkType _ f.name.position]
    cases p.checkType f.returnType f.name.position with
    | error e => rfl
    | ok _ => exact (Stmt.checkAll_placeless forgets f.body ⟨c.names.enter scope, some f⟩
        ⟨d.names.enter scope, some f.placeless⟩ ⟨rfl, rfl⟩).1

theorem Forgets.checkUnitDeclaration (forgets : p.Forgets r) (d : UnitDeclaration) :
    Check.Echoes (p.checkUnitDeclaration d) (r.checkUnitDeclaration d.placeless) :=
  .ofExcept (forgets.checkUnit _ _)

theorem Forgets.checkMain (forgets : p.Forgets r) : Check.Echoes p.checkMain r.checkMain := by
  unfold Program.checkMain
  rw [forgets.functions]
  cases p.function? "main" with
  | none => exact .pure _
  | some f =>
    simp only [Option.map_some, Function.placeless, Symbol.placeless, List.isEmpty_map, List.length_map]
    split
    · exact .pure _
    · exact .fail _ _

theorem checkFunction_ok_iff (p : Program) (f : Function) (c d : Checker) :
    ((p.checkFunction f).run.run c).1 = .ok () ↔ ((p.checkFunction f).run.run d).1 = .ok () := by
  have forgets := Forgets.placeless p
  rw [← mapError_eq_ok (f := TypingError.placeless), ← forgets.checkFunction f c .start,
    forgets.checkFunction f d .start, mapError_eq_ok]

/-- A program is accepted if all of its parts are, each of them on its own. -/
theorem checked_iff_accepted (p : Program) : p.checked = .ok () ↔ p.Accepted := by
  have units := fun d (_ : d ∈ p.unitsInOrder) => p.checkUnitDeclaration_leaves (c := .start) d
  have functions (c : Checker) (outside : c.function = none) := fun f (_ : f ∈ p.functionsInOrder) =>
    p.checkFunction_leaves (c := c) outside f
  have main (c : Checker) : (p.checkMain.run.run c).1 = .ok () ↔ (p.checkMain.run.run .start).1 = .ok () := by
    unfold checkMain
    cases p.function? "main" with
    | none => rfl
    | some f => dsimp only; split <;> rfl
  -- What the statements leave behind does not matter to the functions and to `main`.
  have behind (c : Checker) (outside : c.function = none) :
      ((p.functionsInOrder.forM p.checkFunction >>= fun _ => p.checkMain).run.run c).1 = .ok () ↔
        (∀ f ∈ p.functions, ((p.checkFunction f).run.run .start).1 = .ok ()) ∧
          (p.checkMain.run.run .start).1 = .ok () := by
    rw [(Check.Leaves.forM (functions c outside)).bind_eq_ok, Check.Leaves.forM_eq_ok (functions c outside), main c]
    simp only [functionsInOrder, List.mem_mergeSort, checkFunction_ok_iff p _ c .start]
  unfold checked check
  rw [(Check.Leaves.forM units).bind_eq_ok, Check.Leaves.forM_eq_ok units, accepted_iff_parts]
  simp only [unitsInOrder, List.mem_mergeSort]
  refine and_congr_right fun _ => ?_
  rw [run_bind]
  cases ran : (Stmt.checkAll p p.statements).run.run .start with | mk result t
  cases result with
  | error e =>
    constructor
    · intro ended
      cases ended
    · rintro ⟨ended, -⟩
      cases ended
  | ok _ =>
    have outside : t.function = none := by rw [Stmt.checkAll_of_ok ran]; rfl
    exact (behind t outside).trans (and_iff_right rfl).symm

/-- Without places the same programs are accepted, in whatever order they keep their functions and units. -/
theorem Forgets.accepted_iff (forgets : p.Forgets r) (functions : (p.functions.map Function.placeless).Perm r.functions)
    (units : (p.units.map UnitDeclaration.placeless).Perm r.units) : p.Accepted ↔ r.Accepted := by
  have start : Checker.start.Alike .start := ⟨rfl, rfl⟩
  have unit (d : UnitDeclaration) : ((r.checkUnitDeclaration d.placeless).run.run .start).1 = .ok () ↔
      ((p.checkUnitDeclaration d).run.run .start).1 = .ok () := by
    rw [(forgets.checkUnitDeclaration d _ _ start).1, mapError_eq_ok]
  have function (f : Function) : ((r.checkFunction f.placeless).run.run .start).1 = .ok () ↔
      ((p.checkFunction f).run.run .start).1 = .ok () := by
    rw [forgets.checkFunction f .start, mapError_eq_ok]
  have statements : ((Stmt.checkAll r r.statements).run.run .start).1 = .ok () ↔
      ((Stmt.checkAll p p.statements).run.run .start).1 = .ok () := by
    rw [forgets.statements, (Stmt.checkAll_placeless forgets p.statements _ _ start).1, mapError_eq_ok]
  have main : (r.checkMain.run.run .start).1 = .ok () ↔ (p.checkMain.run.run .start).1 = .ok () := by
    rw [(forgets.checkMain _ _ start).1, mapError_eq_ok]
  constructor
  · intro accepted
    refine ⟨?_, statements.mpr accepted.statements, ?_, main.mpr accepted.main⟩
    · intro d mem
      obtain ⟨d, here, rfl⟩ := List.mem_map.mp (units.mem_iff.mpr mem)
      exact (unit d).mpr (accepted.units d here)
    · intro f mem
      obtain ⟨f, here, rfl⟩ := List.mem_map.mp (functions.mem_iff.mpr mem)
      exact (function f).mpr (accepted.functions f here)
  · intro accepted
    refine ⟨?_, statements.mp accepted.statements, ?_, main.mp accepted.main⟩
    · intro d mem
      exact (unit d).mp (accepted.units _ (units.mem_iff.mp (List.mem_map_of_mem mem)))
    · intro f mem
      exact (function f).mp (accepted.functions _ (functions.mem_iff.mp (List.mem_map_of_mem mem)))

/-- Programs that differ in places and in the order of functions and units are accepted or refused together. -/
theorem Alike.accepted_iff {q : Program} (alike : q.Alike p) (distinct : p.Distinct) :
    q.checked = .ok () ↔ p.checked = .ok () := by
  rw [checked_iff_accepted, checked_iff_accepted, (Forgets.placeless p).accepted_iff (.refl _) (.refl _)]
  exact (alike.forgets distinct).accepted_iff alike.functions alike.units

end Program

end

end Mensura
