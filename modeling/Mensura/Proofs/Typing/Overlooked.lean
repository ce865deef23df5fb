import Mensura.Proofs.Scope.Gap
import Mensura.Proofs.Typing.Atomicity
import Mensura.Proofs.Typing.Congruence

/-!
Checking overlooks empty scopes, and the body of the function at hand. Where every name means the same, an expression
has the same type; where the names in scope differ in an empty scope, statements are checked alike. Main statement: what
stands behind the first branch of an `if` is checked alike in a block of its own.
-/

namespace Mensura

/-- The names at the present place are related, and the functions at hand have the same header. -/
structure Checker.Near (N : Context Ty → Context Ty → Prop) (c d : Checker) : Prop where
  present : N c.names.current d.names.current
  function : d.function.map Function.header = c.function.map Function.header

/-- All that is read in a function but its body is the same. -/
theorem Checker.Near.map_function {β : Type} {N : Context Ty → Context Ty → Prop} {c d : Checker} (near : c.Near N d)
    {f : Function → β} (unread : ∀ g, f g.header = f g) : d.function.map f = c.function.map f := by
  have same := congrArg (Option.map f) near.function
  have plain : f ∘ Function.header = f := funext unread
  rwa [Option.map_map, Option.map_map, plain] at same

/-- From checkers that are near each other the check comes to the same, and to checkers that are near each other. -/
def Check.Overlooks {α : Type} (N : Context Ty → Context Ty → Prop) (x : Check α) : Prop :=
  Echoes (Checker.Near N) id x x

namespace Check.Overlooks

variable {α β : Type}

section
variable {N : Context Ty → Context Ty → Prop} {x : Check α}

theorem pure (a : α) : Overlooks N (Pure.pure a) := Echoes.pure a

theorem fail (fault : TypingFault) (position : Position) : Overlooks N (Check.fail fault position) := Echoes.throw _

theorem bind {f : α → Check β} (first : Overlooks N x) (rest : ∀ a, Overlooks N (f a)) : Overlooks N (x >>= f) :=
  Echoes.bind first rest

theorem ofExcept (result : Except TypingError α) : Overlooks N (Check.ofExcept result) := by
  intro c d near
  cases result <;> exact ⟨rfl, near⟩

/-- What is done with the names in scope must not depend on more than what they mean. -/
theorem context {f : Context Ty → Check α} (same : ∀ {c d}, N c d → f d = f c) (h : ∀ c, Overlooks N (f c)) :
    Overlooks N (Check.context >>= f) := by
  intro c d near
  rw [Check.run_context, Check.run_context, same near.present]
  exact h _ c d near

end

section
variable {N : Nat → Context Ty → Context Ty → Prop} {k : Nat}

theorem declare (steady : Context.Steady N) (name : String) (type : Ty) :
    Overlooks (N (k + 1)) (Check.declare name type) := by
  intro c d near
  have declared := CallStack.current_modify_related near.present fun h => steady.declare h name type
  exact ⟨rfl, declared, near.function⟩

theorem inBlock {body : Check Unit} (steady : Context.Steady N) (h : Overlooks (N (k + 1)) body) :
    Overlooks (N k) (Check.inBlock body) := by
  apply Echoes.around (run_inBlock body) (run_inBlock body) h
  · intro c d near
    exact ⟨CallStack.current_modify_related near.present steady.push, near.function⟩
  · intro c d near
    exact ⟨CallStack.current_modify_related near.present steady.pop, near.function⟩

end

end Check.Overlooks

/-! ### Statements -/

section
variable {p : Program}

namespace Program

section
variable {N : Context Ty → Context Ty → Prop} (looks : ∀ {c d}, N c d → ∀ name, d.lookup name = c.lookup name)
include looks

theorem typeOf_overlooks (e : Expr) : Check.Overlooks N (p.typeOf e) := by
  apply Check.Overlooks.context
  · intro c d near
    rw [Expr.type_congr (.refl p) (looks near) e]
  · exact fun _ => .ofExcept _

theorem checkCondition_overlooks (condition : Expr) : Check.Overlooks N (p.checkCondition condition) :=
  .bind (typeOf_overlooks looks condition) fun _ => .ofExcept _

theorem checkAssignment_overlooks (name : Symbol) (value : Expr) :
    Check.Overlooks N (p.checkAssignment name value) := by
  apply Check.Overlooks.context
  · intro c d near
    rw [looks near]
  · intro c
    cases c.lookup name.name with
    | none => exact .fail _ _
    | some type => exact .bind (typeOf_overlooks looks value) fun _ => .ofExcept _

theorem checkReturn_overlooks (position : Position) (value : Option Expr) :
    Check.Overlooks N (p.checkReturn position value) := by
  have compared (found : Ty) : Check.Overlooks N (do
      let function := (← get).function
      let expected := (function.map Function.returnType).getD .void
      if ← Check.ofExcept (p.sameType position expected found) then return ()
      let name := (function.map (·.name.name)).getD ""
      Check.fail (.returnMismatch name expected found) position) := by
    apply Echoes.get
    intro c d near
    have expected : d.function.map Function.returnType = c.function.map Function.returnType :=
      near.map_function fun _ => rfl
    have name : d.function.map (·.name.name) = c.function.map (·.name.name) := near.map_function fun _ => rfl
    simp only [expected, name]
    apply Check.Overlooks.bind (.ofExcept _)
    intro same
    cases same with
    | true => exact .pure _
    | false => exact .fail _ _
  cases value with
  | some e => exact .bind (typeOf_overlooks looks e) compared
  | none => exact compared .void

end

theorem checkDeclaration_overlooks {N : Nat → Context Ty → Context Ty → Prop} (steady : Context.Steady N) (k : Nat)
    (name : Symbol) (type : Ty) (value : Expr) :
    Check.Overlooks (N (k + 1)) (p.checkDeclaration name type value) := by
  apply Check.Overlooks.context
  · intro c d near
    rw [Context.declares, steady.lookup near]
    rfl
  · intro c
    cases c.declares name.name with
    | true => exact .fail _ _
    | false =>
      apply Check.Overlooks.bind (.ofExcept _)
      intro _
      apply Check.Overlooks.bind (typeOf_overlooks steady.lookup value)
      intro found
      exact .bind (.ofExcept _) fun _ => .declare steady name.name type

end Program

section
variable {N : Nat → Context Ty → Context Ty → Prop}

mutual

theorem Stmt.check_overlooks (steady : Context.Steady N) (k : Nat) (s : Stmt) :
    Check.Overlooks (N (k + 1)) (s.check p) := by
  cases s with
  | declare name type value => exact Program.checkDeclaration_overlooks steady k name type value
  | assign name value => exact Program.checkAssignment_overlooks steady.lookup name value
  | ifElse condition body otherwise =>
    simp only [Stmt.check]
    apply Check.Overlooks.bind (Program.checkCondition_overlooks steady.lookup condition)
    intro _
    exact .bind (.inBlock steady (Stmt.checkAll_overlooks steady _ body))
      fun _ => Else.check_overlooks steady _ otherwise
  | loop condition body =>
    simp only [Stmt.check]
    exact .bind (Program.checkCondition_overlooks steady.lookup condition)
      fun _ => .inBlock steady (Stmt.checkAll_overlooks steady _ body)
  | ret position value => exact Program.checkReturn_overlooks steady.lookup position value
  | call callee args =>
    simp only [Stmt.check]
    exact .bind (Program.typeOf_overlooks steady.lookup (.call callee args)) fun _ => .pure _
  | block body =>
    simp only [Stmt.check]
    exact .inBlock steady (Stmt.checkAll_overlooks steady _ body)

theorem Stmt.checkAll_overlooks (steady : Context.Steady N) (k : Nat) (ss : List Stmt) :
    Check.Overlooks (N (k + 1)) (Stmt.checkAll p ss) := by
  cases ss with
  | nil => exact .pure _
  | cons s ss =>
    simp only [Stmt.checkAll]
    exact .bind (Stmt.check_overlooks steady k s) fun _ => Stmt.checkAll_overlooks steady k ss

theorem Else.check_overlooks (steady : Context.Steady N) (k : Nat) (o : Else) :
    Check.Overlooks (N k) (o.check p) := by
  cases o with
  | none => exact .pure _
  | last body =>
    simp only [Else.check]
    exact .inBlock steady (Stmt.checkAll_overlooks steady k body)
  | elseIf condition body otherwise =>
    simp only [Else.check]
    apply Check.Overlooks.bind (Program.checkCondition_overlooks steady.lookup condition)
    intro _
    exact .bind (.inBlock steady (Stmt.checkAll_overlooks steady k body))
      fun _ => Else.check_overlooks steady k otherwise

end

end

end

/-! ### Blocks around a choice, and bodies of functions -/

section
variable (p : Program)

/-- Both checks leave everything as it was, so that only what they come to has to be compared. -/
theorem Else.inBlock_check (o : Else) : Check.inBlock (o.check p) = o.check p := by
  funext c
  change (Check.inBlock (o.check p)).run.run c = (o.check p).run.run c
  let opened : Checker := { c with names := c.names.modify .push }
  have near : c.Near (Context.Gap 0) opened := ⟨Context.Gap.zero_iff.mpr (CallStack.current_modify _ _), rfl⟩
  obtain ⟨same, -⟩ := Else.check_overlooks (p := p) Context.Gap.steady 0 o c opened near
  have outside : ((o.check p).run.run c).2 = c := (Else.check_leaves c o).state_eq
  have inside : ((o.check p).run.run opened).2 = opened := (Else.check_leaves opened o).state_eq
  rw [Check.run_inBlock]
  apply Prod.ext
  · exact same.trans (mapError_id _)
  · rw [outside, Prod.map_snd, inside]
    exact Checker.Extends.refl.pop

theorem Stmt.checkAll_singleton (s : Stmt) : Stmt.checkAll p [s] = s.check p := by
  rw [Stmt.checkAll]
  exact bind_pure _

/-- A further branch is as good as a last branch with a choice in it. -/
theorem Else.check_nested (condition : Expr) (body : List Stmt) (otherwise : Else) :
    (Else.last [.ifElse condition body otherwise]).check p = (Else.elseIf condition body otherwise).check p := by
  have choice : (Stmt.ifElse condition body otherwise).check p = (Else.elseIf condition body otherwise).check p := by
    rw [Stmt.check, Else.check]
  rw [Else.check, Stmt.checkAll_singleton, choice, Else.inBlock_check]

/-- Of the function at hand, a body is checked against the header only. -/
theorem Stmt.inCall_checkAll {f g : Function} (same : g.header = f.header) (parameters : Scope Ty) (ss : List Stmt) :
    Check.inCall g parameters (Stmt.checkAll p ss) = Check.inCall f parameters (Stmt.checkAll p ss) := by
  funext c
  change (Check.inCall g parameters (Stmt.checkAll p ss)).run.run c =
    (Check.inCall f parameters (Stmt.checkAll p ss)).run.run c
  let inside (h : Function) : Checker := ⟨c.names.enter parameters, some h⟩
  have near : (inside f).Near Eq (inside g) := ⟨rfl, congrArg some same⟩
  obtain ⟨result, -⟩ := Stmt.checkAll_overlooks (p := p) .eq 0 ss (inside f) (inside g) near
  have left (h : Function) : ((Stmt.checkAll p ss).run.run (inside h)).2.names.exit = c.names := by
    obtain ⟨scope, extended⟩ := Stmt.checkAll_extends (p := p) (inside h) ss
    rw [extended, CallStack.exit_modify_enter]
  rw [Check.run_inCall, Check.run_inCall]
  apply Prod.ext
  · exact result.trans (mapError_id _)
  · exact congrArg (Checker.mk · none) ((left g).trans (left f).symm)

end

end Mensura
