import Mensura.Proofs.Scope.Related
import Mensura.Proofs.Typing.Operation
import Mensura.Proofs.Typing.WellTyped

/-!
Checking is exact, but for the spelling of units. Every walk of the checker goes along with the walk that works
out meanings: what it lets through is well typed, and what it refuses is not, unless a power leaves its range
or the unit of a root or a power cannot be worked out. Main statement: that is so for whole programs.
-/

namespace Mensura

variable {p : Program}

/-- The type of a name and its meaning. -/
abbrev Program.Declared (p : Program) (τ : Ty) (m : Meaning) : Prop := τ.meaning p.unitTable = some m

/-- What every function gives back has a meaning. -/
def Program.Signed (p : Program) : Prop := ∀ f ∈ p.functions, ∃ m, f.returnType.meaning p.unitTable = some m

theorem Program.mem_of_function? {name : String} {f : Function} (h : p.function? name = some f) :
    f ∈ p.functions := List.mem_of_find?_eq_some h

/-! ### Expressions -/

section
variable {types : Context Ty} {names : Context Meaning}

theorem Expr.meanings_length {es : List Expr} {ms : List Meaning} (h : Expr.meanings p names es = some ms) :
    ms.length = es.length := by
  induction es generalizing ms with
  | nil => cases h; rfl
  | cons e es ih =>
    obtain ⟨m, -, h⟩ := Option.bind_eq_some_iff.mp h
    obtain ⟨rest, found, h⟩ := Option.bind_eq_some_iff.mp h
    cases h
    exact congrArg (· + 1) (ih found)

/-- A call with the wrong number of arguments has no meaning. -/
theorem refused_of_count {callee : String} {args : List Expr} {e : TypingError}
    (wrong : ∀ ms, ms.length = args.length → p.callMeaning callee args ms = none) :
    Agrees (Ty.Means p.unitTable) (.error e)
      ((Expr.meanings p names args).bind (p.callMeaning callee args)) := by
  refine .inl ?_
  cases found : Expr.meanings p names args with
  | none => rfl
  | some ms => exact wrong ms (Expr.meanings_length found)

mutual

/-- The type of an expression means what the expression means. -/
theorem Expr.type_agrees (signed : p.Signed) (related : types.Related p.Declared names) (e : Expr) :
    Agrees (Ty.Means p.unitTable) (e.type p types) (e.meaning p names) := by
  cases e with
  | literal value position =>
    simp only [Expr.type, Expr.meaning]
    exact Program.literalType_agrees value
  | var name =>
    simp only [Expr.type, Expr.meaning]
    obtain ⟨ht, hm⟩ | ⟨τ, m, ht, hm, declared⟩ := rel_iff.mp (related.lookup name.name)
    · rw [ht, hm]
      exact .refused
    · rw [ht, hm]
      exact .ok (Ty.means_of_meaning declared)
  | unary op position operand =>
    simp only [Expr.type, Expr.meaning]
    exact .bind (Expr.type_agrees signed related operand) fun _ _ means => Program.unaryType_agrees op means
  | binary left op position right =>
    simp only [Expr.type, Expr.meaning]
    apply Agrees.bind (Expr.type_agrees signed related left)
    intro _ _ first
    apply Agrees.bind (Expr.type_agrees signed related right)
    intro _ _ second
    exact Program.binaryType_agrees op first second
  | call callee args =>
    simp only [Expr.type, Expr.meaning]
    cases builtin : Builtin.ofName? callee.name with
    | some callee' =>
      dsimp only
      split
      · rename_i count
        apply refused_of_count
        intro ms length
        rw [Program.callMeaning, builtin]
        cases meaning : callee'.meaning args ms with
        | none => exact meaning
        | some k => exact absurd (length.symm.trans (Builtin.length_of_meaning meaning)) count
      · apply Agrees.bind (Expr.types_agree signed related args)
        intro ts ms means
        rw [Program.callMeaning, builtin]
        dsimp only
        cases found : callee'.resultType? p.unitTable ts args with
        | some τ =>
          obtain ⟨k, meaning, result⟩ := Builtin.resultType?_eq_some means found
          exact ⟨k, meaning, result⟩
        | none =>
          obtain none | rfl | rfl := Builtin.resultType?_eq_none means found
          · exact .inl none
          · exact .spelling trivial
          · exact .spelling trivial
    | none =>
      dsimp only
      cases declared : p.function? callee.name with
      | none =>
        refine .inl ?_
        cases Expr.meanings p names args <;> simp [Program.callMeaning, builtin, declared]
      | some f =>
        dsimp only
        split
        · rename_i count
          apply refused_of_count
          intro ms length
          have mismatch : ¬ p.Takes f.params ms := fun takes => count (length ▸ takes.length_eq.symm)
          simp [Program.callMeaning, builtin, declared, mismatch]
        · rename_i count
          have assoc : (Expr.meanings p names args >>= p.callMeaning callee.name args) =
              (Expr.meanings p names args >>= fun ms => guard (p.Takes f.params ms)) >>= fun _ =>
                f.returnType.meaning p.unitTable := by
            rw [bind_assoc]
            congr 1
            funext ms
            simp [Program.callMeaning, builtin, declared]
          obtain ⟨k, meaning⟩ := signed f (Program.mem_of_function? declared)
          rw [assoc]
          refine .bind (Expr.matchParams_agrees signed related args f.params (not_not.mp count)) ?_
          intro _ _ _
          rw [meaning]
          exact .ok (Ty.means_of_meaning meaning)

theorem Expr.types_agree (signed : p.Signed) (related : types.Related p.Declared names) (es : List Expr) :
    Agrees (List.Forall₂ (Ty.Means p.unitTable)) (Expr.types p types es) (Expr.meanings p names es) := by
  cases es with
  | nil => exact .ok .nil
  | cons e es =>
    simp only [Expr.types, Expr.meanings]
    apply Agrees.bind (Expr.type_agrees signed related e)
    intro _ _ first
    exact .bind (Expr.types_agree signed related es) fun _ _ rest => .ok (.cons first rest)

/-- Arguments are let through if they mean what the parameters do. -/
theorem Expr.matchParams_agrees (signed : p.Signed) (related : types.Related p.Declared names) (es : List Expr)
    (params : List Param) (count : es.length = params.length) :
    Agrees (fun _ _ => True) (Expr.matchParams p types es params)
      (Expr.meanings p names es >>= fun ms => guard (p.Takes params ms)) := by
  cases es with
  | nil =>
    cases params with
    | nil => exact ⟨(), by simp [Expr.meanings], trivial⟩
    | cons => cases count
  | cons e es =>
    cases params with
    | nil => cases count
    | cons param params =>
      have assoc : (Expr.meanings p names (e :: es) >>= fun ms => guard (p.Takes (param :: params) ms)) =
          e.meaning p names >>= fun n => guard (param.type.meaning p.unitTable = some n) >>= fun _ =>
            Expr.meanings p names es >>= fun ms => guard (p.Takes params ms) := by
        simp only [Expr.meanings, bind_assoc]
        congr 1
        funext n
        by_cases first : param.type.meaning p.unitTable = some n <;> simp [first]
      rw [assoc]
      simp only [Expr.matchParams]
      apply Agrees.bind (Expr.type_agrees signed related e)
      intro _ _ means
      apply Agrees.bind (Program.expectType_agrees param.type e.position means)
      intro _ _ _
      exact Expr.matchParams_agrees signed related es params (Nat.succ.inj count)

end

end

/-! ### Statements -/

/-- A check agrees with a meaning from `c` on, if what it leaves in scope is in the relation as well. -/
def Check.Agrees {α β : Type} (related : α → Checker → β → Prop) (x : Check α) (c : Checker)
    (meaning : Option β) : Prop :=
  Within (fun e => meaning = none ∨ e.fault.SpellingDependent) x c fun a t => ∃ b, meaning = some b ∧ related a t b

namespace Check.Agrees

variable {α β γ δ : Type} {related : α → Checker → β → Prop} {next : γ → Checker → δ → Prop} {c : Checker}

theorem pure {a : α} {b : β} (h : related a c b) : Check.Agrees related (Pure.pure a) c (some b) := ⟨b, rfl, h⟩

theorem ofExcept {result : Except TypingError α} {o : Option β} {good : α → β → Prop}
    (h : Mensura.Agrees good result o) :
    Check.Agrees (fun a t b => t = c ∧ good a b) (Check.ofExcept result) c o := by
  cases result with
  | error e => exact h
  | ok a =>
    obtain ⟨b, found, h⟩ := h
    exact ⟨b, found, rfl, h⟩

theorem bind {x : Check α} {o : Option β} {f : α → Check γ} {g : β → Option δ} (first : Check.Agrees related x c o)
    (rest : ∀ a t b, related a t b → Check.Agrees next (f a) t (g b)) :
    Check.Agrees next (x >>= f) c (o >>= g) := by
  unfold Check.Agrees Within at first ⊢
  rw [run_bind]
  generalize x.run.run c = r at first
  obtain ⟨a | a, t⟩ := r
  · obtain rfl | spelling := first
    · exact .inl rfl
    · exact .inr spelling
  · obtain ⟨b, rfl, h⟩ := first
    exact rest a t b h

/-- What comes of a meaning may be put in another form. -/
theorem map {x : Check α} {o : Option β} {g : β → δ} {next : α → Checker → δ → Prop}
    (h : Check.Agrees related x c o) (implies : ∀ a t b, related a t b → next a t (g b)) :
    Check.Agrees next x c (do return g (← o)) := by
  rw [← bind_pure x]
  apply bind h
  intro a t b holds
  exact pure (implies a t b holds)

theorem mono {x : Check α} {o : Option β} {weaker : α → Checker → β → Prop} (h : Check.Agrees related x c o)
    (implies : ∀ a t b, related a t b → weaker a t b) : Check.Agrees weaker x c o :=
  Within.mono h fun a t ⟨b, found, h⟩ => ⟨b, found, implies a t b h⟩

/-- What agrees with a meaning can be told by that meaning alone. -/
theorem within {x : Check α} {o : Option β} {P : Prop} {good : α → Checker → Prop} (h : Check.Agrees related x c o)
    (without : o = none → P) (found : ∀ a t b, o = some b → related a t b → good a t) :
    Within (fun e => P ∨ e.fault.SpellingDependent) x c good := by
  unfold Check.Agrees Within at h
  unfold Within
  generalize x.run.run c = r at h ⊢
  obtain ⟨e | a, t⟩ := r
  · exact h.imp_left without
  · obtain ⟨b, meaning, h⟩ := h
    exact found a t b meaning h

end Check.Agrees

/-- What is in scope has the meanings `names`, and the function at hand gives back `expected`. -/
structure Checker.Fits (p : Program) (expected : Meaning) (names : Context Meaning) (c : Checker) : Prop where
  names : c.names.current.Related p.Declared names
  result : ((c.function.map Function.returnType).getD .void).meaning p.unitTable = some expected

/-- Only the innermost scope can have changed. -/
def Checker.Extends (before after : Checker) : Prop :=
  ∃ scope, after = { before with names := before.names.modify fun names => { names with innermost := scope } }

section
variable {expected : Meaning} {names : Context Meaning} {c : Checker}

theorem Checker.Extends.refl : c.Extends c :=
  ⟨c.names.current.innermost, congrArg (Checker.mk · c.function) (CallStack.modify_eq_self rfl).symm⟩

theorem Checker.Extends.trans {d e : Checker} (first : c.Extends d) (second : d.Extends e) : c.Extends e := by
  obtain ⟨scope, rfl⟩ := first
  obtain ⟨scope', rfl⟩ := second
  refine ⟨scope', congrArg (Checker.mk · c.function) ?_⟩
  rw [CallStack.modify_modify]
  rfl

theorem Check.Agrees.context {α β : Type} {related : α → Checker → β → Prop} {f : Context Ty → Check α}
    {o : Option β} (h : Check.Agrees related (f c.names.current) c o) :
    Check.Agrees related (Check.context >>= f) c o := h

theorem Program.typeOf_agrees (signed : p.Signed) (fits : c.Fits p expected names) (e : Expr) :
    Check.Agrees (fun τ t m => t = c ∧ τ.Means p.unitTable m) (p.typeOf e) c (e.meaning p names) :=
  Check.Agrees.ofExcept (Expr.type_agrees signed fits.names e)

theorem Program.checkCondition_agrees (signed : p.Signed) (fits : c.Fits p expected names) (e : Expr) :
    Check.Agrees (fun _ t _ => t = c) (p.checkCondition e) c (guard (e.meaning p names = some .bool)) := by
  have split : (guard (e.meaning p names = some .bool) : Option Unit) =
      e.meaning p names >>= fun m => guard (Ty.bool.meaning p.unitTable = some m) := by
    cases e.meaning p names <;> simp [Ty.meaning, eq_comm]
  rw [split]
  apply Check.Agrees.bind (Program.typeOf_agrees signed fits e)
  rintro τ _ m ⟨rfl, means⟩
  exact (Check.Agrees.ofExcept (expectType_agrees .bool e.position means)).mono fun _ _ _ h => h.1

/-- A block leaves everything in scope as it was. -/
theorem Check.inBlock_agrees {body : Check Unit} {o : Option (Context Meaning)}
    (h : Check.Agrees (fun _ t names' => Checker.Extends { c with names := c.names.modify .push } t ∧
        t.Fits p expected names') body { c with names := c.names.modify .push } o) :
    Check.Agrees (fun _ t _ => t = c) (Check.inBlock body) c o := by
  refine Within.around (run_inBlock body c) (Within.mono h ?_)
  rintro _ t ⟨names, found, ⟨scope, rfl⟩, -⟩
  refine ⟨names, found, congrArg (Checker.mk · c.function) ?_⟩
  rw [CallStack.modify_modify, CallStack.modify_modify]
  exact CallStack.modify_eq_self rfl

theorem Checker.Fits.push (fits : c.Fits p expected names) :
    Checker.Fits p expected names.push { c with names := c.names.modify .push } :=
  ⟨by simpa using fits.names.push, fits.result⟩

theorem Check.fail_agrees {α β : Type} {related : α → Checker → β → Prop} {fault : TypingFault}
    {position : Position} {rest : Unit → Check α} :
    Check.Agrees related (Check.fail fault position >>= rest) c none := .inl rfl

theorem Checker.Extends.declare (name : String) (τ : Ty) :
    c.Extends { c with names := c.names.modify (·.declare name τ) } :=
  ⟨c.names.current.innermost.set name τ, congrArg (Checker.mk · c.function) (CallStack.modify_congr rfl)⟩

theorem Checker.Fits.declare {τ : Ty} {m : Meaning} (fits : c.Fits p expected names) (name : String)
    (declared : p.Declared τ m) :
    Checker.Fits p expected (names.declare name m) { c with names := c.names.modify (·.declare name τ) } :=
  ⟨by simpa using fits.names.declare declared, fits.result⟩

theorem Program.checkDeclaration_agrees (signed : p.Signed) (fits : c.Fits p expected names) (name : Symbol)
    (type : Ty) (value : Expr) :
    Check.Agrees (fun _ t names' => c.Extends t ∧ t.Fits p expected names') (p.checkDeclaration name type value) c
      (Stmt.after p expected (.declare name type value) names) := by
  simp only [Stmt.after, checkDeclaration]
  refine .context ?_
  rw [fits.names.declares name.name]
  cases names.declares name.name with
  | true => exact Check.fail_agrees
  | false =>
    refine .bind (o := type.meaning p.unitTable) (Check.Agrees.ofExcept (checkType_agrees type name.position)) ?_
    rintro _ _ m ⟨rfl, declared⟩
    refine .bind (typeOf_agrees signed fits value) ?_
    rintro σ _ n ⟨rfl, means⟩
    have compared := expectType_agrees type value.position means
    simp only [declared, Option.some_inj] at compared
    apply Check.Agrees.bind (Check.Agrees.ofExcept compared)
    rintro _ _ _ ⟨rfl, -⟩
    exact ⟨_, rfl, .declare name.name type, fits.declare name.name declared⟩

theorem Program.checkAssignment_agrees (signed : p.Signed) (fits : c.Fits p expected names) (name : Symbol)
    (value : Expr) :
    Check.Agrees (fun _ t names' => c.Extends t ∧ t.Fits p expected names') (p.checkAssignment name value) c
      (Stmt.after p expected (.assign name value) names) := by
  simp only [Stmt.after, checkAssignment]
  refine .context ?_
  obtain ⟨ht, hm⟩ | ⟨τ, m, ht, hm, declared⟩ := rel_iff.mp (fits.names.lookup name.name)
  · rw [ht, hm]
    exact .inl rfl
  · rw [ht, hm]
    refine .bind (o := Expr.meaning p names value) (typeOf_agrees signed fits value) ?_
    rintro σ _ n ⟨rfl, means⟩
    have compared := expectType_agrees τ value.position means
    simp only [declared, Option.some_inj] at compared
    apply (Check.Agrees.ofExcept compared).map
    rintro _ _ _ ⟨rfl, -⟩
    exact ⟨.refl, fits⟩

/-- What is given back is compared with what the function at hand says. -/
theorem Program.checkResult_agrees (fits : c.Fits p expected names) (position : Position) {found : Ty} {n : Meaning}
    (means : found.Means p.unitTable n) :
    Check.Agrees (fun _ t names' => c.Extends t ∧ t.Fits p expected names')
      (do
        let function := (← get).function
        let result := (function.map Function.returnType).getD .void
        if ← Check.ofExcept (p.sameType position result found) then return ()
        let name := (function.map (·.name.name)).getD ""
        Check.fail (.returnMismatch name result found) position)
      c (do guard (n = expected); return names) := by
  have compared := sameType_agrees position (Ty.means_of_meaning fits.result) means
  suffices reached : ∀ fault, Check.Agrees (fun _ t names' => c.Extends t ∧ t.Fits p expected names')
      (do
        let result := (c.function.map Function.returnType).getD .void
        if ← Check.ofExcept (p.sameType position result found) then return ()
        Check.fail fault position)
      c (do guard (n = expected); return names) from reached _
  intro fault
  unfold Check.Agrees Within
  rw [run_bind]
  cases h : p.sameType position ((c.function.map Function.returnType).getD .void) found with
  | error e =>
    rw [h] at compared
    exact .inr (compared.resolve_left nofun)
  | ok same =>
    rw [h] at compared
    obtain ⟨-, -, compared⟩ := compared
    cases same with
    | true =>
      cases compared.mp rfl
      exact ⟨names, by simp, .refl, fits⟩
    | false =>
      have differ : n ≠ expected := fun equal => nomatch compared.mpr equal.symm
      exact .inl (by simp [differ])

theorem Program.checkReturn_agrees (signed : p.Signed) (fits : c.Fits p expected names) (position : Position)
    (value : Option Expr) :
    Check.Agrees (fun _ t names' => c.Extends t ∧ t.Fits p expected names') (p.checkReturn position value) c
      (Stmt.after p expected (.ret position value) names) := by
  simp only [Stmt.after]
  cases value with
  | some e =>
    refine .bind (o := e.meaning p names) (typeOf_agrees signed fits e) ?_
    rintro σ _ n ⟨rfl, means⟩
    exact checkResult_agrees fits position means
  | none => exact checkResult_agrees fits position .void

end

section
variable {expected : Meaning}

mutual

/-- A statement that is let through leaves behind what it has to. -/
theorem Stmt.check_agrees (signed : p.Signed) {names : Context Meaning} {c : Checker}
    (fits : c.Fits p expected names) (s : Stmt) :
    Check.Agrees (fun _ t names' => c.Extends t ∧ t.Fits p expected names') (s.check p) c
      (s.after p expected names) := by
  cases s with
  | declare name type value => exact Program.checkDeclaration_agrees signed fits name type value
  | assign name value => exact Program.checkAssignment_agrees signed fits name value
  | ifElse condition body otherwise =>
    simp only [Stmt.check, Stmt.after]
    apply Check.Agrees.bind (Program.checkCondition_agrees signed fits condition)
    rintro _ _ _ rfl
    apply Check.Agrees.bind (Check.inBlock_agrees (Stmt.checkAll_agrees signed fits.push body))
    rintro _ _ _ rfl
    apply (Else.check_agrees signed fits otherwise).map
    rintro _ _ _ rfl
    exact ⟨.refl, fits⟩
  | loop condition body =>
    simp only [Stmt.check, Stmt.after]
    apply Check.Agrees.bind (Program.checkCondition_agrees signed fits condition)
    rintro _ _ _ rfl
    apply (Check.inBlock_agrees (Stmt.checkAll_agrees signed fits.push body)).map
    rintro _ _ _ rfl
    exact ⟨.refl, fits⟩
  | ret position value => exact Program.checkReturn_agrees signed fits position value
  | call callee args =>
    simp only [Stmt.check, Stmt.after]
    apply Check.Agrees.bind (Program.typeOf_agrees signed fits (.call callee args))
    rintro _ _ _ ⟨rfl, -⟩
    exact .pure ⟨.refl, fits⟩
  | block body =>
    simp only [Stmt.check, Stmt.after]
    apply (Check.inBlock_agrees (Stmt.checkAll_agrees signed fits.push body)).map
    rintro _ _ _ rfl
    exact ⟨.refl, fits⟩

theorem Stmt.checkAll_agrees (signed : p.Signed) {names : Context Meaning} {c : Checker}
    (fits : c.Fits p expected names) (ss : List Stmt) :
    Check.Agrees (fun _ t names' => c.Extends t ∧ t.Fits p expected names') (Stmt.checkAll p ss) c
      (Stmt.afterAll p expected ss names) := by
  cases ss with
  | nil => exact .pure ⟨.refl, fits⟩
  | cons s ss =>
    simp only [Stmt.checkAll, Stmt.afterAll]
    apply Check.Agrees.bind (Stmt.check_agrees signed fits s)
    rintro _ _ _ ⟨first, fits⟩
    exact (Stmt.checkAll_agrees signed fits ss).mono fun _ _ _ ⟨rest, fits⟩ => ⟨first.trans rest, fits⟩

theorem Else.check_agrees (signed : p.Signed) {names : Context Meaning} {c : Checker}
    (fits : c.Fits p expected names) (o : Else) :
    Check.Agrees (fun _ t _ => t = c) (o.check p) c (o.after p expected names) := by
  cases o with
  | none => exact .pure rfl
  | last body =>
    simp only [Else.check, Else.after]
    apply (Check.inBlock_agrees (Stmt.checkAll_agrees signed fits.push body)).map
    rintro _ _ _ rfl
    exact rfl
  | elseIf condition body otherwise =>
    simp only [Else.check, Else.after]
    apply Check.Agrees.bind (Program.checkCondition_agrees signed fits condition)
    rintro _ _ _ rfl
    apply Check.Agrees.bind (Check.inBlock_agrees (Stmt.checkAll_agrees signed fits.push body))
    rintro _ _ _ rfl
    apply (Else.check_agrees signed fits otherwise).map
    rintro _ _ _ rfl
    exact rfl

end

end

end Mensura
