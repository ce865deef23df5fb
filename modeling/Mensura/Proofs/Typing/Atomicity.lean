import Mensura.Proofs.Typing.Checker

/-!
What checking leaves behind. A check that fails leaves everything in scope as it was, however deep in blocks and
branches the error has come up, and a check that goes well adds a name only where it has checked a declaration.
That is shown for one statement, for statements one after the other and for functions. Main statement: a program
whose check fails has added the globals of the statements in front of the failing one, and nothing else.
-/

namespace Mensura

/-- Declares names one after the other. -/
def Context.declareAll {α : Type} (c : Context α) (bindings : List (String × α)) : Context α :=
  bindings.foldl (fun c b => c.declare b.1 b.2) c

/-- The name that a statement declares where it stands, and its type. -/
def Stmt.declared? : Stmt → Option (String × Ty)
  | declare name type _ => some (name.name, type)
  | _ => none

theorem Stmt.filterMap_declared (s : Stmt) (ss : List Stmt) :
    (s :: ss).filterMap Stmt.declared? = s.declared?.toList ++ ss.filterMap Stmt.declared? := by
  rw [List.filterMap_cons]
  cases s.declared? <;> rfl

namespace Checker

variable {c t : Checker}

/-- With these names declared at the present place. -/
def adding (c : Checker) (bindings : List (String × Ty)) : Checker :=
  { c with names := c.names.modify (·.declareAll bindings) }

theorem adding_nil (c : Checker) : c.adding [] = c :=
  congrArg (Checker.mk · c.function) (CallStack.modify_eq_self rfl)

theorem adding_append (c : Checker) (as bs : List (String × Ty)) : c.adding (as ++ bs) = (c.adding as).adding bs := by
  refine congrArg (Checker.mk · c.function) ?_
  rw [adding, CallStack.modify_modify]
  exact CallStack.modify_congr List.foldl_append

theorem Extends.adding (c : Checker) (bindings : List (String × Ty)) : c.Extends (c.adding bindings) := by
  induction bindings generalizing c with
  | nil =>
    rw [adding_nil]
    exact .refl
  | cons b bs ih =>
    rw [← List.singleton_append, adding_append]
    exact (Extends.declare b.1 b.2).trans (ih _)

/-- What has been added in a block is gone at its end. -/
theorem Extends.pop (h : Extends { c with names := c.names.modify .push } t) :
    { t with names := t.names.modify .pop } = c := by
  obtain ⟨scope, rfl⟩ := h
  refine congrArg (Checker.mk · c.function) ?_
  rw [CallStack.modify_modify, CallStack.modify_modify]
  exact CallStack.modify_eq_self rfl

end Checker

/-- From `c` on, a check that goes well leaves `t` behind, and one that fails leaves `c`. -/
def Check.Leaves {α : Type} (x : Check α) (c t : Checker) : Prop :=
  match x.run.run c with
  | (.ok _, u) => u = t
  | (.error _, u) => u = c

theorem Check.run_context {α : Type} (f : Context Ty → Check α) (c : Checker) :
    (Check.context >>= f).run.run c = (f c.names.current).run.run c := rfl

namespace Check.Leaves

variable {α β : Type} {x : Check α} {f : α → Check β} {c t : Checker}

theorem pure (a : α) : Leaves (Pure.pure a) c c := rfl

theorem ofExcept (result : Except TypingError α) : Leaves (Check.ofExcept result) c c := by
  cases result <;> rfl

theorem fail (fault : TypingFault) (position : Position) : Leaves (Check.fail fault position) c t := rfl

theorem context : Leaves Check.context c c := rfl

theorem bind (first : Leaves x c c) (rest : ∀ a, Leaves (f a) c t) : Leaves (x >>= f) c t := by
  unfold Leaves at first ⊢
  rw [run_bind]
  generalize x.run.run c = r at first
  obtain ⟨_ | a, u⟩ := r
  · exact first
  · cases first
    exact rest a

theorem state_eq (h : Leaves x c c) : (x.run.run c).2 = c := by
  unfold Leaves at h
  generalize x.run.run c = r at h ⊢
  obtain ⟨_ | _, u⟩ := r <;> exact h

theorem forM {f : α → Check PUnit} {as : List α} (each : ∀ a ∈ as, Leaves (f a) c c) : Leaves (as.forM f) c c := by
  induction as with
  | nil => exact .pure _
  | cons a as ih =>
    obtain ⟨first, rest⟩ := List.forall_mem_cons.mp each
    exact first.bind fun _ => ih rest

/-- A check that leaves everything as it was. -/
theorem stays (h : Leaves x c c) : (∃ a, x.run.run c = (.ok a, c)) ∨ ∃ e, x.run.run c = (.error e, c) := by
  unfold Leaves at h
  generalize x.run.run c = r at h ⊢
  obtain ⟨e | a, u⟩ := r
  · exact .inr ⟨e, congrArg _ h⟩
  · exact .inl ⟨a, congrArg _ h⟩

theorem bind_eq_ok {x : Check Unit} {f : Unit → Check α} {a : α} (h : Leaves x c c) :
    ((x >>= f).run.run c).1 = .ok a ↔ x.run.run c = (.ok (), c) ∧ ((f ()).run.run c).1 = .ok a := by
  rw [run_bind]
  obtain ⟨_, ran⟩ | ⟨e, ran⟩ := h.stays
  · rw [ran]
    exact (and_iff_right rfl).symm
  · rw [ran]
    exact ⟨nofun, fun ended => nomatch ended.1⟩

/-- If a loop over a list fails, one of its steps does. -/
theorem exists_of_forM {f : α → Check PUnit} {as : List α} {e : TypingError} (each : ∀ a ∈ as, Leaves (f a) c c)
    (h : (as.forM f).run.run c = (.error e, t)) : ∃ a ∈ as, ((f a).run.run c).1 = .error e := by
  induction as with
  | nil => cases h
  | cons a as ih =>
    obtain ⟨first, rest⟩ := List.forall_mem_cons.mp each
    change (f a >>= fun _ => as.forM f).run.run c = _ at h
    rw [run_bind] at h
    obtain ⟨_, ran⟩ | ⟨e', ran⟩ := first.stays
    · rw [ran] at h
      obtain ⟨b, mem, fails⟩ := ih rest h
      exact ⟨b, List.mem_cons_of_mem a mem, fails⟩
    · rw [ran] at h
      cases h
      exact ⟨a, List.mem_cons_self, congrArg Prod.fst ran⟩

/-- A loop over a list goes well if each of its steps does. -/
theorem forM_eq_ok {f : α → Check PUnit} {as : List α} (each : ∀ a ∈ as, Leaves (f a) c c) :
    (as.forM f).run.run c = (.ok (), c) ↔ ∀ a ∈ as, ((f a).run.run c).1 = .ok () := by
  induction as with
  | nil => exact ⟨fun _ => nofun, fun _ => rfl⟩
  | cons a as ih =>
    obtain ⟨first, rest⟩ := List.forall_mem_cons.mp each
    change (f a >>= fun _ => as.forM f).run.run c = _ ↔ _
    rw [run_bind, List.forall_mem_cons]
    obtain ⟨_, ran⟩ | ⟨e, ran⟩ := first.stays
    · rw [ran]
      exact (ih rest).trans (and_iff_right rfl).symm
    · rw [ran]
      exact ⟨nofun, fun all => nomatch all.1⟩

/-- Whatever a block adds and however it ends, everything in scope is as it was before. -/
theorem inBlock {body : Check Unit}
    (h : Checker.Extends { c with names := c.names.modify .push }
      (body.run.run { c with names := c.names.modify .push }).2) : Leaves (Check.inBlock body) c c := by
  unfold Leaves
  rw [run_inBlock]
  generalize body.run.run { c with names := c.names.modify .push } = r at h
  obtain ⟨_ | _, u⟩ := r <;> exact h.pop

end Check.Leaves

section
variable {p : Program} {c : Checker}

/-! ### Statements -/

theorem Program.typeOf_leaves (e : Expr) : Check.Leaves (p.typeOf e) c c :=
  .bind .context fun _ => .ofExcept _

theorem Program.checkCondition_leaves (e : Expr) : Check.Leaves (p.checkCondition e) c c :=
  .bind (typeOf_leaves e) fun _ => .ofExcept _

theorem Program.checkAssignment_leaves (name : Symbol) (value : Expr) :
    Check.Leaves (p.checkAssignment name value) c c := by
  refine .bind .context fun names => ?_
  cases names.lookup name.name with
  | none => exact .fail _ _
  | some type => exact .bind (typeOf_leaves value) fun _ => .ofExcept _

theorem Program.checkReturn_leaves (position : Position) (value : Option Expr) :
    Check.Leaves (p.checkReturn position value) c c := by
  have compared (found : Ty) : Check.Leaves (do
      let function := (← get).function
      let expected := (function.map Function.returnType).getD .void
      if ← Check.ofExcept (p.sameType position expected found) then return ()
      let name := (function.map (·.name.name)).getD ""
      Check.fail (.returnMismatch name expected found) position) c c := by
    refine .bind (x := get) rfl fun s => .bind (.ofExcept _) fun same => ?_
    split
    · exact .pure _
    · exact .fail _ _
  cases value with
  | some e => exact .bind (typeOf_leaves e) compared
  | none => exact compared .void

theorem Program.checkDeclaration_leaves (name : Symbol) (type : Ty) (value : Expr) :
    Check.Leaves (p.checkDeclaration name type value) c (c.adding [(name.name, type)]) := by
  refine .bind .context fun names => ?_
  cases names.declares name.name with
  | true => exact .fail _ _
  | false =>
    refine .bind (.ofExcept _) fun _ => .bind (typeOf_leaves value) fun _ => .bind (.ofExcept _) fun _ => ?_
    exact rfl

/-- A name that is declared had no meaning before. -/
theorem Stmt.lookup_of_declared {s : Stmt} {name : String} {type : Ty} (declared : s.declared? = some (name, type))
    (h : ((s.check p).run.run c).1 = .ok ()) : c.names.current.lookup name = none := by
  cases s with
  | declare symbol τ value =>
    obtain ⟨rfl, rfl⟩ := Prod.mk.inj (Option.some.inj declared)
    cases present : c.names.current.lookup symbol.name with
    | none => rfl
    | some old =>
      have known : c.names.current.declares symbol.name = true := congrArg Option.isSome present
      simp only [Stmt.check, Program.checkDeclaration, Check.run_context, known] at h
      cases h
  | _ => cases declared

mutual

theorem Stmt.check_leaves (c : Checker) (s : Stmt) : Check.Leaves (s.check p) c (c.adding s.declared?.toList) := by
  have quiet (h : Check.Leaves (s.check p) c c) (none : s.declared? = none) :
      Check.Leaves (s.check p) c (c.adding s.declared?.toList) := by
    rw [none, Option.toList_none, Checker.adding_nil]
    exact h
  cases s with
  | declare name type value => exact Program.checkDeclaration_leaves name type value
  | assign name value => exact quiet (Program.checkAssignment_leaves name value) rfl
  | ifElse condition body otherwise =>
    refine quiet ?_ rfl
    simp only [Stmt.check]
    apply Check.Leaves.bind (Program.checkCondition_leaves condition)
    intro _
    apply Check.Leaves.bind (.inBlock (Stmt.checkAll_extends _ body))
    intro _
    exact Else.check_leaves c otherwise
  | loop condition body =>
    refine quiet ?_ rfl
    simp only [Stmt.check]
    exact .bind (Program.checkCondition_leaves condition) fun _ => .inBlock (Stmt.checkAll_extends _ body)
  | ret position value => exact quiet (Program.checkReturn_leaves position value) rfl
  | call callee args =>
    refine quiet ?_ rfl
    simp only [Stmt.check]
    exact .bind (Program.typeOf_leaves _) fun _ => .pure _
  | block body =>
    refine quiet ?_ rfl
    simp only [Stmt.check]
    exact .inBlock (Stmt.checkAll_extends _ body)

theorem Stmt.checkAll_extends (c : Checker) (ss : List Stmt) :
    c.Extends ((Stmt.checkAll p ss).run.run c).2 := by
  cases ss with
  | nil => exact .refl
  | cons s ss =>
    simp only [Stmt.checkAll]
    have first := Stmt.check_leaves c s
    unfold Check.Leaves at first
    rw [run_bind]
    generalize (s.check p).run.run c = r at first
    obtain ⟨e | _, t⟩ := r
    · cases first
      exact .refl
    · cases first
      exact (Checker.Extends.adding c _).trans (Stmt.checkAll_extends _ ss)

theorem Else.check_leaves (c : Checker) (o : Else) : Check.Leaves (o.check p) c c := by
  cases o with
  | none => exact .pure _
  | last body =>
    simp only [Else.check]
    exact .inBlock (Stmt.checkAll_extends _ body)
  | elseIf condition body otherwise =>
    simp only [Else.check]
    apply Check.Leaves.bind (Program.checkCondition_leaves condition)
    intro _
    apply Check.Leaves.bind (.inBlock (Stmt.checkAll_extends _ body))
    intro _
    exact Else.check_leaves c otherwise

end

/-! ### Statements one after the other -/

/-- Statements that all go well add what they declare. -/
theorem Stmt.checkAll_of_ok {ss : List Stmt} {t : Checker} (h : (Stmt.checkAll p ss).run.run c = (.ok (), t)) :
    t = c.adding (ss.filterMap Stmt.declared?) := by
  induction ss generalizing c with
  | nil =>
    cases h
    exact (Checker.adding_nil _).symm
  | cons s ss ih =>
    simp only [Stmt.checkAll, run_bind] at h
    have first := Stmt.check_leaves (p := p) c s
    unfold Check.Leaves at first
    generalize (s.check p).run.run c = r at first h
    obtain ⟨e | _, u⟩ := r
    · cases h
    · cases first
      rw [ih h, Stmt.filterMap_declared, Checker.adding_append]

/-- If one of several statements fails, those in front of it have added what they declare. -/
theorem Stmt.checkAll_of_error {ss : List Stmt} {t : Checker} {e : TypingError}
    (h : (Stmt.checkAll p ss).run.run c = (.error e, t)) :
    ∃ done s rest, ss = done ++ s :: rest ∧ t = c.adding (done.filterMap Stmt.declared?) ∧
      ((s.check p).run.run t).1 = .error e := by
  induction ss generalizing c with
  | nil => cases h
  | cons s ss ih =>
    simp only [Stmt.checkAll, run_bind] at h
    have first := Stmt.check_leaves (p := p) c s
    unfold Check.Leaves at first
    cases outcome : (s.check p).run.run c with | mk result u
    rw [outcome] at first h
    cases result with
    | error e' =>
      cases first
      cases h
      exact ⟨[], s, ss, rfl, (Checker.adding_nil _).symm, congrArg Prod.fst outcome⟩
    | ok _ =>
      cases first
      obtain ⟨done, failing, rest, rfl, rfl, fails⟩ := ih h
      refine ⟨s :: done, failing, rest, rfl, ?_, fails⟩
      rw [Stmt.filterMap_declared, Checker.adding_append]

/-! ### Functions and programs -/

/-- Whatever comes of a function, the names in scope are as they were before it, and no function is under way
behind it if none was before. -/
theorem Program.checkFunction_leaves (outside : c.function = none) (f : Function) :
    Check.Leaves (p.checkFunction f) c c := by
  refine .bind (.ofExcept _) fun parameters => .bind (.ofExcept _) fun _ => ?_
  unfold Check.Leaves
  rw [Check.run_inCall]
  have body := Stmt.checkAll_extends (p := p) ⟨c.names.enter parameters, some f⟩ f.body
  generalize (Stmt.checkAll p f.body).run.run ⟨c.names.enter parameters, some f⟩ = r at body
  have left : (⟨r.2.names.exit, none⟩ : Checker) = c := by
    obtain ⟨scope, extended⟩ := body
    rw [extended, CallStack.exit_modify_enter, ← outside]
  obtain ⟨_ | _, u⟩ := r <;> exact left

theorem Program.checkUnitDeclaration_leaves (d : UnitDeclaration) : Check.Leaves (p.checkUnitDeclaration d) c c :=
  .ofExcept _

theorem Program.checkMain_leaves : Check.Leaves p.checkMain c c := by
  unfold checkMain
  cases p.function? "main" with
  | none => exact .pure _
  | some f =>
    dsimp only
    split
    · exact .pure _
    · exact .fail _ _

/-- Why the check of a program fails, with the statements that have been checked before. -/
inductive Program.StopsBehind (p : Program) (c : Checker) (e : TypingError) : List Stmt → Prop
  | unit {d : UnitDeclaration} (mem : d ∈ p.unitsInOrder)
      (fails : ((p.checkUnitDeclaration d).run.run c).1 = .error e) : StopsBehind p c e []
  | statement {done : List Stmt} {s : Stmt} {rest : List Stmt} (here : p.statements = done ++ s :: rest)
      (fails : ((s.check p).run.run (c.adding (done.filterMap Stmt.declared?))).1 = .error e) :
      StopsBehind p c e done
  | function {f : Function} (mem : f ∈ p.functionsInOrder)
      (fails : ((p.checkFunction f).run.run (c.adding (p.statements.filterMap Stmt.declared?))).1 = .error e) :
      StopsBehind p c e p.statements
  | main (fails : (p.checkMain.run.run (c.adding (p.statements.filterMap Stmt.declared?))).1 = .error e) :
      StopsBehind p c e p.statements

/-- The check of a program adds what its statements declare, up to the one that fails if one does. -/
theorem Program.check_stops (outside : c.function = none) :
    match p.check.run.run c with
    | (.ok _, t) => t = c.adding (p.statements.filterMap Stmt.declared?)
    | (.error e, t) => ∃ done, p.StopsBehind c e done ∧ t = c.adding (done.filterMap Stmt.declared?) := by
  have unit (d) (_ : d ∈ p.unitsInOrder) := p.checkUnitDeclaration_leaves (c := c) d
  unfold check
  rw [run_bind]
  obtain ⟨_, units⟩ | ⟨e, units⟩ := (Check.Leaves.forM unit).stays
  case inr =>
    rw [units]
    obtain ⟨d, mem, fails⟩ := Check.Leaves.exists_of_forM unit units
    exact ⟨[], .unit mem fails, (Checker.adding_nil _).symm⟩
  rw [units]
  dsimp only
  rw [run_bind]
  cases statements : (Stmt.checkAll p p.statements).run.run c with | mk result t
  cases result with
  | error e =>
    obtain ⟨done, s, rest, here, rfl, fails⟩ := Stmt.checkAll_of_error statements
    exact ⟨done, .statement here fails, rfl⟩
  | ok _ =>
    have added := Stmt.checkAll_of_ok statements
    have function (f) (_ : f ∈ p.functionsInOrder) := p.checkFunction_leaves (c := t) (added ▸ outside) f
    dsimp only
    rw [run_bind]
    obtain ⟨_, functions⟩ | ⟨e, functions⟩ := (Check.Leaves.forM function).stays
    case inr =>
      rw [functions]
      obtain ⟨f, mem, fails⟩ := Check.Leaves.exists_of_forM function functions
      exact ⟨p.statements, .function mem (added ▸ fails), added⟩
    rw [functions]
    dsimp only
    obtain ⟨_, main⟩ | ⟨e, main⟩ := (p.checkMain_leaves (c := t)).stays
    · rw [main]
      exact added
    · rw [main]
      exact ⟨p.statements, .main (added ▸ congrArg Prod.fst main), added⟩

/-- What the checks of a program, of its parts and of expressions lead to, one after the other. -/
inductive Program.Reaches (p : Program) : Checker → Prop
  | start : p.Reaches .start
  | type {c : Checker} (e : Expr) : p.Reaches c → p.Reaches ((p.typeOf e).run.run c).2
  | statement {c : Checker} (s : Stmt) : p.Reaches c → p.Reaches ((s.check p).run.run c).2
  | function {c : Checker} (f : Function) : p.Reaches c → p.Reaches ((p.checkFunction f).run.run c).2
  | run {c : Checker} : p.Reaches c → p.Reaches (p.check.run.run c).2

/-- No call, no block and no function is under way. -/
structure Checker.Outside (c : Checker) : Prop where
  function : c.function = none
  calls : c.names.calls = []
  blocks : c.names.global.enclosing = []

theorem Context.enclosing_declareAll {α : Type} (names : Context α) (bindings : List (String × α)) :
    (names.declareAll bindings).enclosing = names.enclosing := by
  induction bindings generalizing names with
  | nil => rfl
  | cons b bs ih => exact ih (names.declare b.1 b.2)

/-- Outside of calls it is the globals that names are added to. -/
theorem Checker.Outside.adding_eq (h : c.Outside) (bindings : List (String × Ty)) :
    c.adding bindings = ⟨⟨c.names.global.declareAll bindings, []⟩, none⟩ := by
  obtain ⟨⟨global, calls⟩, function⟩ := c
  cases h.calls
  cases h.function
  rfl

theorem Checker.Outside.adding (h : c.Outside) (bindings : List (String × Ty)) : (c.adding bindings).Outside := by
  rw [h.adding_eq]
  exact ⟨rfl, rfl, (Context.enclosing_declareAll _ _).trans h.blocks⟩

/-- Between two checks no call, no block and no function is left under way. -/
theorem Program.Reaches.outside (h : p.Reaches c) : c.Outside := by
  induction h with
  | start => exact ⟨rfl, rfl, rfl⟩
  | type e _ ih =>
    rw [(typeOf_leaves e).state_eq]
    exact ih
  | @statement c s _ ih =>
    have left := Stmt.check_leaves (p := p) c s
    unfold Check.Leaves at left
    generalize (s.check p).run.run c = r at left ⊢
    obtain ⟨_ | _, t⟩ := r
    · exact left ▸ ih
    · exact left ▸ ih.adding _
  | function f _ ih =>
    rw [(p.checkFunction_leaves ih.function f).state_eq]
    exact ih
  | @run c _ ih =>
    have left := p.check_stops ih.function
    generalize p.check.run.run c = r at left ⊢
    obtain ⟨_ | _, t⟩ := r
    · obtain ⟨done, -, rfl⟩ := left
      exact ih.adding _
    · exact left ▸ ih.adding _

/-- Failing checks leave nothing behind. The type of an expression is found without a trace. A statement that
fails leaves everything as it was, from wherever in it the error comes, and one that goes well adds at most the
one name that it declares, which had no meaning before. Between checks a function leaves everything as it was,
however it ends. So a program adds what its statements declare, those in front of the failing one if it fails. -/
theorem Program.checking_atomic :
    (∀ e, ((p.typeOf e).run.run c).2 = c) ∧
    (∀ s : Stmt, match (s.check p).run.run c with
      | (.ok _, t) => t = c.adding s.declared?.toList ∧
        ∀ name type, s.declared? = some (name, type) → c.names.current.lookup name = none
      | (.error _, t) => t = c) ∧
    (p.Reaches c →
      c.Outside ∧ (∀ f, ((p.checkFunction f).run.run c).2 = c) ∧
      match p.check.run.run c with
      | (.ok _, t) => t = ⟨⟨c.names.global.declareAll (p.statements.filterMap Stmt.declared?), []⟩, none⟩
      | (.error e, t) => ∃ done, p.StopsBehind c e done ∧
        t = ⟨⟨c.names.global.declareAll (done.filterMap Stmt.declared?), []⟩, none⟩) := by
  refine ⟨fun e => (typeOf_leaves e).state_eq, ?statement, ?between⟩
  case statement =>
    intro s
    have left := Stmt.check_leaves (p := p) c s
    have fresh (name : String) (type : Ty) (declared : s.declared? = some (name, type)) :
        ((s.check p).run.run c).1 = .ok () → c.names.current.lookup name = none := Stmt.lookup_of_declared declared
    unfold Check.Leaves at left
    generalize (s.check p).run.run c = r at left fresh
    obtain ⟨_ | _, t⟩ := r
    · exact left
    · exact ⟨left, fun name type declared => fresh name type declared rfl⟩
  case between =>
    intro reached
    have outside := reached.outside
    refine ⟨outside, fun f => (p.checkFunction_leaves outside.function f).state_eq, ?_⟩
    have left := p.check_stops outside.function
    simpa only [outside.adding_eq] using left

end

/-- Declares `a`, and in a block `b` before it uses the unknown `c`. -/
def halting : Program :=
  ⟨[], [], [.declare ⟨"a", .start⟩ .bool (.literal (.bool true) .start),
    .block [.declare ⟨"b", .start⟩ .bool (.literal (.bool true) .start), .assign ⟨"c", .start⟩ (.var ⟨"b", .start⟩)]]⟩

theorem checking_atomic_halting :
    (halting.check.run.run .start).2.names.global.innermost = ⟨[("a", .bool)]⟩ ∧
      ∃ done, halting.StopsBehind .start ⟨.variableUndeclared "c", .start⟩ done ∧
        (halting.check.run.run .start).2 =
          ⟨⟨Context.declareAll (.ofParameters .empty) (done.filterMap Stmt.declared?), []⟩, none⟩ := by
  obtain ⟨-, -, left⟩ := (Program.checking_atomic (p := halting)).2.2 .start
  have fails : (halting.check.run.run .start).1 = .error ⟨.variableUndeclared "c", .start⟩ := by decide +kernel
  refine ⟨by decide +kernel, ?_⟩
  generalize halting.check.run.run .start = r at left fails
  obtain ⟨_, t⟩ := r
  cases fails
  exact left

end Mensura
