import Mensura.Proofs.Typing.Exactness
import Mensura.Proofs.Unit.Names

/-!
Checking speaks of what is in the program. Main statement: if every name in a program is as it should be, then so is
every name in the error that the program is not accepted for, in the names and in the units that it holds.
-/

namespace Mensura

open UnitError (Spares)

/-- Every name in a fault is as `P` says. A `return` outside of functions is in none that has a name. -/
def TypingFault.Named (P : String → Prop) : TypingFault → Prop
  | variableRedeclared name | variableUndeclared name | functionUndeclared name => P name
  | unit error => P error.name
  | mismatch expected found => expected.Named P ∧ found.Named P
  | notPermitted _ operands => ∀ τ ∈ operands, τ.Named P
  | argumentCount callee _ _ => P callee
  | returnMismatch function expected found => (function = "" ∨ P function) ∧ expected.Named P ∧ found.Named P
  | parameterRepeated function parameter => P function ∧ P parameter

/-- What is checked goes well as `good` says, or it goes wrong with names as `P` says. -/
abbrev TypingError.Spares {α : Type} (P : String → Prop) (good : α → Prop) (result : Except TypingError α) : Prop :=
  Ends (fun e => e.fault.Named P) good result

/-- Every name in the types that are in scope is as `P` says. -/
abbrev Context.Named (P : String → Prop) (names : Context Ty) : Prop := names.Related (fun τ _ => τ.Named P) names

theorem Context.Named.lookup {P : String → Prop} {names : Context Ty} (h : names.Named P) {name : String} {τ : Ty}
    (found : names.lookup name = some τ) : τ.Named P := by
  have related := Context.Related.lookup h name
  rw [found] at related
  cases related with
  | some holds => exact holds

/-! ### Operations -/

theorem Program.unaryType_named {P : String → Prop} {op : UnaryOp} {position : Position} {operand : Ty}
    (h : operand.Named P) : TypingError.Spares P (Ty.Named P) (unaryType op position operand) := by
  have refused : ∀ τ ∈ [operand], τ.Named P := List.forall_mem_singleton.mpr h
  cases op <;> cases operand <;> first | exact refused | exact h

namespace Builtin

variable {P : String → Prop} {table : UnitTable}

theorem rootType?_named (known : table.Named P) {u : UnitExpr} {τ : Ty} (named : u.Named P)
    (found : rootType? table u = some τ) : τ.Named P := by
  obtain ⟨v, expanded, found⟩ := Option.bind_eq_some_iff.mp found
  obtain ⟨half, halved, found⟩ := Option.bind_eq_some_iff.mp found
  cases found
  have kept := UnitTable.expand_named known named
  rw [toOption_eq_some.mp expanded] at kept
  exact UnitExpr.halve?_named kept halved

theorem powerType?_named {base exponent : UnitExpr} {written : Option Expr} {τ : Ty} (named : base.Named P)
    (found : powerType? table base exponent written = some τ) : τ.Named P := by
  obtain ⟨plainExponent, -, found⟩ := Option.bind_eq_some_iff.mp found
  obtain ⟨-, -, found⟩ := Option.bind_eq_some_iff.mp found
  obtain ⟨plainBase, -, found⟩ := Option.bind_eq_some_iff.mp found
  cases plainBase with
  | true =>
    cases found
    exact nofun
  | false =>
    obtain ⟨e, -, found⟩ := Option.bind_eq_some_iff.mp found
    obtain ⟨n, -, found⟩ := Option.bind_eq_some_iff.mp found
    obtain ⟨factor, -, found⟩ := Option.bind_eq_some_iff.mp found
    obtain ⟨scaled, raised, found⟩ := Option.bind_eq_some_iff.mp found
    cases found
    have kept := UnitExpr.scale_named named factor
    rw [toOption_eq_some.mp raised] at kept
    exact kept

theorem resultType?_named (known : table.Named P) {callee : Builtin} {types : List Ty} {args : List Expr} {τ : Ty}
    (named : ∀ τ ∈ types, τ.Named P) (found : callee.resultType? table types args = some τ) : τ.Named P := by
  unfold resultType? at found
  split at found
  · split at found
    · cases found
    · cases found
      exact trivial
    · cases found
  · split at found
    · exact rootType?_named known (named _ List.mem_cons_self) found
    · cases found
  · split at found
    · exact powerType?_named (named _ List.mem_cons_self) found
    · cases found

end Builtin

namespace Program.Named

variable {P : String → Prop} {p : Program} (named : p.Named P)
include named

theorem unitTable : p.unitTable.Named P := by
  intro entry mem
  obtain ⟨d, among, rfl⟩ := List.mem_map.mp mem
  exact (named.units d among).unit

theorem function? {name : String} {f : Function} (found : p.function? name = some f) : f.Named P :=
  named.functions f (List.mem_of_find?_eq_some found)

theorem checkUnit {u : UnitExpr} (h : u.Named P) (position : Position) :
    TypingError.Spares P (fun _ => True) (p.checkUnit u position) := by
  have expanded := UnitTable.expand_named named.unitTable h
  unfold Program.checkUnit
  generalize u.expand p.unitTable = r at expanded
  cases r with
  | ok v => exact trivial
  | error e => exact expanded

theorem checkType {τ : Ty} (h : τ.Named P) (position : Position) :
    TypingError.Spares P (fun _ => True) (p.checkType τ position) := by
  cases τ with
  | quantity u => exact named.checkUnit h position
  | bool | text | void => exact trivial

theorem sameType {τ σ : Ty} (left : τ.Named P) (right : σ.Named P) (position : Position) :
    TypingError.Spares P (fun _ => True) (p.sameType position τ σ) := by
  cases τ <;> cases σ
  case quantity.quantity u v =>
    have compared := UnitTable.equivalent_named named.unitTable left right
    simp only [Program.sameType]
    generalize u.equivalent p.unitTable v = r at compared
    cases r with
    | ok same => exact trivial
    | error e => exact compared
  all_goals exact trivial

theorem expectType {expected found : Ty} (left : expected.Named P) (right : found.Named P) (position : Position) :
    TypingError.Spares P (fun _ => True) (p.expectType expected found position) := by
  refine .bind ((named.sameType left right position).mono ?_)
  rintro (_ | _) -
  · exact ⟨left, right⟩
  · exact trivial

theorem binaryType {left right : Ty} (l : left.Named P) (r : right.Named P) (op : BinaryOp) (position : Position) :
    TypingError.Spares P (Ty.Named P) (p.binaryType op position left right) := by
  have onSame (result : Ty) (h : result.Named P) : TypingError.Spares P (fun o => ∀ τ, o = some τ → τ.Named P)
      (binaryType?.onSame p position left right result) := by
    refine .bind ((named.sameType l r position).mono ?_)
    rintro (_ | _) - τ ⟨⟩
    exact h
  have combined (result : Except UnitError UnitExpr) (h : Spares P (UnitExpr.Named P) result) :
      TypingError.Spares P (fun o => ∀ τ, o = some τ → τ.Named P) (binaryType?.combined position result) := by
    cases result with
    | ok u =>
      rintro τ ⟨⟩
      exact h
    | error e => exact h
  have found : TypingError.Spares P (fun o => ∀ τ, o = some τ → τ.Named P) (p.binaryType? op position left right) := by
    have refused : ∀ σ : Ty, none = some σ → σ.Named P := nofun
    have plain (τ : Ty) (h : τ.Named P) : ∀ σ, some τ = some σ → σ.Named P := by
      rintro _ ⟨⟩
      exact h
    cases op <;> cases left <;> cases right <;>
      first
        | exact refused
        | exact plain _ trivial
        | exact combined _ (UnitExpr.multiply_named l r)
        | exact combined _ (UnitExpr.divide_named l r)
        | exact onSame _ l
        | exact onSame _ trivial
  refine .bind (found.mono ?_)
  rintro (_ | τ) h
  · exact List.forall_mem_cons.mpr ⟨l, List.forall_mem_singleton.mpr r⟩
  · exact h τ rfl

theorem literalType {value : Literal} (h : value.Named P) (position : Position) :
    TypingError.Spares P (Ty.Named P) (p.literalType position value) := by
  have measured {u : UnitExpr} (h : u.Named P) :
      TypingError.Spares P (Ty.Named P) (do p.checkUnit u position; return .quantity u) :=
    .bind ((named.checkUnit h position).mono fun _ _ => h)
  cases value with
  | int n unit | float x unit =>
    cases unit with
    | none => exact nofun
    | some u => exact measured h
  | bool b | text s => exact trivial

end Program.Named

/-! ### Expressions -/

section
variable {P : String → Prop} {p : Program} {names : Context Ty}

mutual

theorem Expr.type_named (named : p.Named P) (known : names.Named P) (e : Expr) (h : e.Named P) :
    TypingError.Spares P (Ty.Named P) (e.type p names) := by
  cases e with
  | literal value position => exact named.literalType h position
  | var name =>
    simp only [Expr.type]
    split
    · rename_i τ found
      exact known.lookup found
    · exact h
  | unary op position operand =>
    simp only [Expr.type]
    exact .bind ((Expr.type_named named known operand h).mono fun τ kept => Program.unaryType_named kept)
  | binary left op position right =>
    obtain ⟨l, r⟩ := h
    simp only [Expr.type]
    refine .bind ((Expr.type_named named known left l).mono fun τ l => ?_)
    exact .bind ((Expr.type_named named known right r).mono fun σ r => named.binaryType l r op position)
  | call callee args =>
    obtain ⟨name, args'⟩ := h
    simp only [Expr.type]
    split
    · rename_i builtin _
      split
      · exact name
      · refine .bind ((Expr.types_named named known args args').mono fun types kept => ?_)
        split
        · rename_i τ found
          exact Builtin.resultType?_named named.unitTable kept found
        · exact kept
    · split
      · rename_i f found
        have signature := named.function? found
        split
        · exact name
        · refine .bind ((Expr.matchParams_named named known args args' f.params signature.params).mono fun _ _ => ?_)
          exact signature.returnType
      · exact name

theorem Expr.types_named (named : p.Named P) (known : names.Named P) (es : List Expr) (h : Expr.AllNamed P es) :
    TypingError.Spares P (fun types => ∀ τ ∈ types, τ.Named P) (Expr.types p names es) := by
  cases es with
  | nil => exact nofun
  | cons e es =>
    obtain ⟨first, rest⟩ := h
    simp only [Expr.types]
    refine .bind ((Expr.type_named named known e first).mono fun τ first => ?_)
    exact .bind ((Expr.types_named named known es rest).mono fun types rest => List.forall_mem_cons.mpr ⟨first, rest⟩)

theorem Expr.matchParams_named (named : p.Named P) (known : names.Named P) (es : List Expr)
    (h : Expr.AllNamed P es) (params : List Param) (all : ∀ a ∈ params, a.Named P) :
    TypingError.Spares P (fun _ => True) (Expr.matchParams p names es params) := by
  cases es with
  | nil => exact trivial
  | cons e es =>
    cases params with
    | nil => exact trivial
    | cons a params =>
      obtain ⟨first, rest⟩ := h
      obtain ⟨param, others⟩ := List.forall_mem_cons.mp all
      simp only [Expr.matchParams]
      refine .bind ((Expr.type_named named known e first).mono fun τ kept => ?_)
      exact .bind ((named.expectType param.type kept e.position).mono fun _ _ =>
        Expr.matchParams_named named known es rest params others)

end

end

/-! ### Statements -/

/-- Every name in the types in scope is as `P` says, and every name in the function that is under way. -/
structure Checker.Named (P : String → Prop) (c : Checker) : Prop where
  names : c.names.Related (fun τ _ => τ.Named P) c.names
  function : ∀ f, c.function = some f → f.Named P

theorem Checker.Named.current {P : String → Prop} {c : Checker} (h : c.Named P) : c.names.current.Named P :=
  h.names.current

/-- Names in scope stay as `P` says, and what is found is as `good` says; or the error speaks of names as `P` says. -/
def Check.Spares {α : Type} (P : String → Prop) (x : Check α) (good : α → Prop) : Prop :=
  ∀ c : Checker, c.Named P → Within (fun e => e.fault.Named P) x c fun a t => good a ∧ t.Named P

namespace Check.Spares

variable {α β : Type} {P : String → Prop} {good : α → Prop} {better : β → Prop}

theorem pure {a : α} (h : good a) : Check.Spares P (Pure.pure a) good := fun _ kept => ⟨h, kept⟩

theorem fail {good : Unit → Prop} {fault : TypingFault} {position : Position} (h : fault.Named P) :
    Check.Spares P (Check.fail fault position) good := fun _ _ => h

theorem ofExcept {result : Except TypingError α} (h : TypingError.Spares P good result) :
    Check.Spares P (Check.ofExcept result) good := by
  intro c kept
  exact (Check.within_ofExcept h).mono fun a t holds => ⟨holds.2, holds.1 ▸ kept⟩

theorem bind {x : Check α} {f : α → Check β} (first : Check.Spares P x good)
    (rest : ∀ a, good a → Check.Spares P (f a) better) : Check.Spares P (x >>= f) better :=
  fun c kept => (first c kept).seq fun a t h => rest a h.1 t h.2

theorem context : Check.Spares P Check.context (Context.Named P) := fun _ kept => ⟨kept.current, kept⟩

theorem declare {name : String} {τ : Ty} (h : τ.Named P) : Check.Spares P (Check.declare name τ) fun _ => True := by
  intro _ kept
  have names := kept.names.modify (·.declare name τ) (·.declare name τ) (kept.current.declare h)
  exact ⟨trivial, names, kept.function⟩

theorem inBlock {body : Check Unit} (h : Check.Spares P body fun _ => True) :
    Check.Spares P (Check.inBlock body) fun _ => True := by
  intro c kept
  refine Within.around (run_inBlock body c) ?_
  have inside : Checker.Named P { c with names := c.names.modify .push } :=
    ⟨kept.names.modify _ _ kept.current.push, kept.function⟩
  exact (h _ inside).mono fun _ t left => ⟨trivial, left.2.names.modify _ _ left.2.current.pop, left.2.function⟩

theorem inCall {f : Function} {parameters : Scope Ty} {body : Check Unit} (signature : f.Named P)
    (types : parameters.Related (fun τ _ => τ.Named P) parameters) (h : Check.Spares P body fun _ => True) :
    Check.Spares P (Check.inCall f parameters body) fun _ => True := by
  intro c kept
  refine Within.around (run_inCall f parameters body c) ?_
  have inside : Checker.Named P ⟨c.names.enter parameters, some f⟩ := by
    refine ⟨kept.names.enter types, ?_⟩
    rintro _ ⟨⟩
    exact signature
  exact (h _ inside).mono fun _ t left => ⟨trivial, left.2.names.exit, nofun⟩

/-- A loop over a list. -/
theorem forM {f : α → Check PUnit} {as : List α} (each : ∀ a ∈ as, Check.Spares P (f a) fun _ => True) :
    Check.Spares P (as.forM f) fun _ => True := by
  intro c kept
  refine (Within.forM (Checker.Named P) (fun _ => True) ?_ kept).mono fun _ t left => ⟨trivial, left.1⟩
  intro a mem c kept
  exact (each a mem c kept).mono fun _ t left => ⟨left.2, trivial⟩

end Check.Spares

namespace Program.Named

variable {P : String → Prop} {p : Program} (named : p.Named P)
include named

theorem typeOf {e : Expr} (h : e.Named P) : Check.Spares P (p.typeOf e) (Ty.Named P) :=
  Check.Spares.context.bind fun _ known => .ofExcept (Expr.type_named named known e h)

theorem checkCondition {condition : Expr} (h : condition.Named P) :
    Check.Spares P (p.checkCondition condition) fun _ => True := by
  have truth : Ty.bool.Named P := trivial
  exact (named.typeOf h).bind fun _ found => .ofExcept (named.expectType truth found _)

theorem checkDeclaration {name : Symbol} {type : Ty} {value : Expr} (here : P name.name) (annotated : type.Named P)
    (h : value.Named P) : Check.Spares P (p.checkDeclaration name type value) fun _ => True := by
  apply Check.Spares.context.bind
  intro names _
  cases names.declares name.name with
  | true => exact Check.Spares.fail here
  | false =>
    refine .bind (.ofExcept (named.checkType annotated name.position)) fun _ _ => ?_
    refine .bind (named.typeOf h) fun found kept => ?_
    refine .bind (.ofExcept (named.expectType annotated kept value.position)) fun _ _ => ?_
    exact .declare annotated

theorem checkAssignment {name : Symbol} {value : Expr} (here : P name.name) (h : value.Named P) :
    Check.Spares P (p.checkAssignment name value) fun _ => True := by
  apply Check.Spares.context.bind
  intro names known
  split
  · exact .fail here
  · rename_i τ meaning
    refine .bind (named.typeOf h) fun found kept => ?_
    exact .ofExcept (named.expectType (known.lookup meaning) kept value.position)

theorem checkReturn (position : Position) {value : Option Expr} (h : ∀ e, value = some e → e.Named P) :
    Check.Spares P (p.checkReturn position value) fun _ => True := by
  have compared (found : Ty) (kept : found.Named P) : Check.Spares P (do
      let function := (← get).function
      let expected := (function.map Function.returnType).getD .void
      if ← Check.ofExcept (p.sameType position expected found) then return ()
      let name := (function.map (·.name.name)).getD ""
      Check.fail (.returnMismatch name expected found) position) fun _ => True := by
    intro c known
    have signature : ((c.function.map (·.name.name)).getD "" = "" ∨ P ((c.function.map (·.name.name)).getD "")) ∧
        ((c.function.map Function.returnType).getD .void).Named P := by
      cases under : c.function with
      | none => exact ⟨.inl rfl, trivial⟩
      | some f => exact ⟨.inr (known.function f under).name, (known.function f under).returnType⟩
    obtain ⟨name, expected⟩ := signature
    refine Check.Spares.bind (.ofExcept (named.sameType expected kept position)) (fun same _ => ?_) c known
    cases same with
    | true => exact .pure trivial
    | false => exact .fail ⟨name, expected, kept⟩
  cases value with
  | some e => exact (named.typeOf (h e rfl)).bind compared
  | none => exact compared .void trivial

omit named

mutual

theorem check (named : p.Named P) {s : Stmt} (h : s.Named P) : Check.Spares P (s.check p) fun _ => True := by
  cases s with
  | declare name type value => exact named.checkDeclaration h.1 h.2.1 h.2.2
  | assign name value => exact named.checkAssignment h.1 h.2
  | ifElse condition body otherwise =>
    obtain ⟨tested, inside, others⟩ := h
    simp only [Stmt.check]
    refine .bind (named.checkCondition tested) fun _ _ => ?_
    exact .bind (.inBlock (named.checkAll inside)) fun _ _ => named.checkElse others
  | loop condition body =>
    obtain ⟨tested, inside⟩ := h
    simp only [Stmt.check]
    exact .bind (named.checkCondition tested) fun _ _ => .inBlock (named.checkAll inside)
  | ret position value =>
    refine named.checkReturn position ?_
    rintro e rfl
    exact h
  | call callee args =>
    simp only [Stmt.check]
    have called : (Expr.call callee args).Named P := h
    exact .bind (named.typeOf called) fun _ _ => .pure trivial
  | block body =>
    simp only [Stmt.check]
    exact .inBlock (named.checkAll h)

theorem checkAll (named : p.Named P) {ss : List Stmt} (h : Stmt.AllNamed P ss) :
    Check.Spares P (Stmt.checkAll p ss) fun _ => True := by
  cases ss with
  | nil => exact .pure trivial
  | cons s ss =>
    simp only [Stmt.checkAll]
    exact .bind (named.check h.1) fun _ _ => named.checkAll h.2

theorem checkElse (named : p.Named P) {o : Else} (h : o.Named P) : Check.Spares P (o.check p) fun _ => True := by
  cases o with
  | none => exact .pure trivial
  | last body =>
    simp only [Else.check]
    exact .inBlock (named.checkAll h)
  | elseIf condition body otherwise =>
    obtain ⟨tested, inside, others⟩ := h
    simp only [Else.check]
    refine .bind (named.checkCondition tested) fun _ _ => ?_
    exact .bind (.inBlock (named.checkAll inside)) fun _ _ => named.checkElse others

end

/-! ### Functions and programs -/

include named

theorem parameterTypes {f : Function} (signature : f.Named P) :
    TypingError.Spares P (fun types => types.Related (fun τ _ => τ.Named P) types) (p.parameterTypes f) := by
  refine Ends.mono (Ends.foldlM (fun rest (types : Scope Ty) =>
    (∀ a ∈ rest, a.Named P) ∧ types.Related (fun τ _ => τ.Named P) types) ?_ ⟨signature.params, .empty⟩) ?_
  · rintro a rest types ⟨all, kept⟩
    obtain ⟨first, rest⟩ := List.forall_mem_cons.mp all
    split
    · exact ⟨signature.name, first.name⟩
    · exact .bind ((named.checkType first.type a.name.position).mono fun _ _ => ⟨rest, kept.set first.type⟩)
  · exact fun types kept => kept.2

theorem checkFunction {f : Function} (signature : f.Named P) :
    Check.Spares P (p.checkFunction f) fun _ => True := by
  refine .bind (.ofExcept (named.parameterTypes signature)) fun types kept => ?_
  refine .bind (.ofExcept (named.checkType signature.returnType f.name.position)) fun _ _ => ?_
  exact .inCall signature kept (named.checkAll signature.body)

theorem checkUnitDeclaration {d : UnitDeclaration} (h : d.Named P) :
    Check.Spares P (p.checkUnitDeclaration d) fun _ => True :=
  .ofExcept (named.checkUnit (List.forall_mem_singleton.mpr h.name) d.name.position)

theorem checkMain : Check.Spares P p.checkMain fun _ => True := by
  unfold Program.checkMain
  split
  · rename_i f found
    split
    · exact .pure trivial
    · exact .fail (named.function? found).name
  · exact .pure trivial

/-- The error that a program is not accepted for speaks of names in the program. -/
theorem checked_ends : TypingError.Spares P (fun _ => True) p.checked := by
  have whole : Check.Spares P p.check fun _ => True := by
    refine .bind (.forM fun d mem => ?_) fun _ _ => ?_
    · exact named.checkUnitDeclaration (named.units d (List.mem_mergeSort.mp mem))
    refine .bind (named.checkAll named.statements) fun _ _ => ?_
    refine .bind (.forM fun f mem => ?_) fun _ _ => named.checkMain
    exact named.checkFunction (named.functions f (List.mem_mergeSort.mp mem))
  have start : Checker.start.Named P := ⟨.empty, nofun⟩
  have ended := whole .start start
  unfold Within at ended
  unfold Program.checked
  generalize p.check.run.run .start = r at ended
  obtain ⟨_ | _, _⟩ := r
  · exact ended
  · exact trivial

end Program.Named

end Mensura
