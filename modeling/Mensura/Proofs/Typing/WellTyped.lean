import Mensura.Proofs.Typing.Meaning

/-!
What expressions mean and which programs are well typed, worked out over the integers. Unlike in checking, no
unit is written down on the way: declared types are turned into their meanings at once, and everything else
follows from meanings. A declaration is the only statement that changes what is in scope.
-/

namespace Mensura

/-- The parameters have types with these meanings. -/
abbrev Program.Takes (p : Program) (params : List Param) (ms : List Meaning) : Prop :=
  List.Forall₂ (fun param m => param.type.meaning p.unitTable = some m) params ms

/-- The meaning of a call by name. The built-in functions come before those of the program. -/
def Program.callMeaning (p : Program) (callee : String) (args : List Expr) (ms : List Meaning) : Option Meaning :=
  match Builtin.ofName? callee with
  | some builtin => builtin.meaning args ms
  | none => do
    let f ← p.function? callee
    guard (p.Takes f.params ms)
    f.returnType.meaning p.unitTable

mutual

/-- The meaning of an expression, where the names in scope have meanings. -/
def Expr.meaning (p : Program) (names : Context Meaning) : Expr → Option Meaning
  | .literal value _ => value.meaning p.unitTable
  | .var name => names.lookup name.name
  | .unary op _ operand => do op.meaning (← operand.meaning p names)
  | .binary left op _ right => do
    let m ← left.meaning p names
    let n ← right.meaning p names
    op.meaning m n
  | .call callee args => do p.callMeaning callee.name args (← Expr.meanings p names args)

def Expr.meanings (p : Program) (names : Context Meaning) : List Expr → Option (List Meaning)
  | [] => some []
  | e :: es => do
    let m ← e.meaning p names
    let ms ← Expr.meanings p names es
    return m :: ms

end

/-- The meaning of what is given back. -/
def Expr.returned (p : Program) (names : Context Meaning) : Option Expr → Option Meaning
  | some e => e.meaning p names
  | none => some .void

mutual

/-- The names in scope behind a statement, if it is well typed where `expected` has to be given back. -/
def Stmt.after (p : Program) (expected : Meaning) : Stmt → Context Meaning → Option (Context Meaning)
  | .declare name type value, names => do
    guard (names.declares name.name = false)
    let m ← type.meaning p.unitTable
    let n ← value.meaning p names
    guard (m = n)
    return names.declare name.name m
  | .assign name value, names => do
    let m ← names.lookup name.name
    let n ← value.meaning p names
    guard (m = n)
    return names
  | .ifElse condition body otherwise, names => do
    guard (condition.meaning p names = some .bool)
    let _ ← Stmt.afterAll p expected body names.push
    let _ ← otherwise.after p expected names
    return names
  | .loop condition body, names => do
    guard (condition.meaning p names = some .bool)
    let _ ← Stmt.afterAll p expected body names.push
    return names
  | .ret _ value, names => do
    guard ((← Expr.returned p names value) = expected)
    return names
  | .call callee args, names => do
    let _ ← Expr.meaning p names (.call callee args)
    return names
  | .block body, names => do
    let _ ← Stmt.afterAll p expected body names.push
    return names

def Stmt.afterAll (p : Program) (expected : Meaning) : List Stmt → Context Meaning → Option (Context Meaning)
  | [], names => some names
  | s :: ss, names => do Stmt.afterAll p expected ss (← s.after p expected names)

def Else.after (p : Program) (expected : Meaning) : Else → Context Meaning → Option (Context Meaning)
  | .none, names => some names
  | .last body, names => do
    let _ ← Stmt.afterAll p expected body names.push
    return names
  | .elseIf condition body otherwise, names => do
    guard (condition.meaning p names = some .bool)
    let _ ← Stmt.afterAll p expected body names.push
    let _ ← otherwise.after p expected names
    return names

end

/-- The scope that the body of a function begins with. -/
def Function.meanings (f : Function) (ms : List Meaning) : Scope Meaning :=
  .ofList ((f.params.map (·.name.name)).zip ms)

/-- All types of the function have a meaning, its parameters differ, and its body gives back what it says. -/
def Function.WellTyped (p : Program) (f : Function) : Prop :=
  (f.params.map (·.name.name)).Nodup ∧
    ∃ ms result names, p.Takes f.params ms ∧
      f.returnType.meaning p.unitTable = some result ∧
      Stmt.afterAll p result f.body (.ofParameters (f.meanings ms)) = some names

/-- Every part of a program is well typed. -/
structure Program.WellTyped (p : Program) : Prop where
  units : ∀ d ∈ p.units, ∃ m, (Ty.quantity (.ofName d.name.name)).meaning p.unitTable = some m
  statements : ∃ names, Stmt.afterAll p .void p.statements (.ofParameters .empty) = some names
  functions : ∀ f ∈ p.functions, f.WellTyped p
  main : ∀ f, p.function? "main" = some f → f.params = []

theorem guard_eq_some {P : Prop} [Decidable P] {x : Unit} : (guard P : Option Unit) = some x ↔ P := by
  by_cases h : P <;> simp [h]

section
variable {p : Program} {names after : Context Meaning} {expected : Meaning}

/-- Only the innermost scope can have changed. -/
def Context.Extends (before after : Context Meaning) : Prop :=
  ∃ scope, after = { before with innermost := scope }

theorem Context.Extends.refl : names.Extends names := ⟨names.innermost, rfl⟩

theorem Context.Extends.trans {between : Context Meaning} (first : names.Extends between)
    (second : between.Extends after) : names.Extends after := by
  obtain ⟨scope, rfl⟩ := first
  obtain ⟨scope', rfl⟩ := second
  exact ⟨scope', rfl⟩

/-- Closing a block brings back the names that were there before it. -/
theorem Context.Extends.pop (h : names.push.Extends after) : after.pop = names := by
  obtain ⟨scope, rfl⟩ := h
  rfl

theorem Stmt.after_extends {s : Stmt} (h : s.after p expected names = some after) : names.Extends after := by
  cases s with
  | declare name type value =>
    simp only [Stmt.after, Option.bind_eq_bind, Option.bind_eq_some_iff, Option.pure_def] at h
    obtain ⟨-, -, m, -, n, -, -, -, h⟩ := h
    cases h
    exact ⟨_, rfl⟩
  | _ =>
    -- Every other statement gives back the names that it began with.
    simp only [Stmt.after, Option.bind_eq_bind, Option.bind_eq_some_iff, Option.pure_def, Option.some_inj,
      exists_and_right] at h
    have same : names = after := by tauto
    exact same ▸ .refl

theorem Stmt.afterAll_extends {ss : List Stmt} (h : Stmt.afterAll p expected ss names = some after) :
    names.Extends after := by
  induction ss generalizing names with
  | nil => cases h; exact .refl
  | cons s ss ih =>
    obtain ⟨between, first, rest⟩ := Option.bind_eq_some_iff.mp h
    exact (Stmt.after_extends first).trans (ih rest)

end

end Mensura
