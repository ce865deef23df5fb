import Mensura.Proofs.Typing.Checker

/-!
Checking whole programs. What is declared is checked in the order of the text, but nothing that is checked
depends on that order. Main statement: a program that is accepted is well typed, and one that is not accepted
is not well typed, unless the fault depends on how units are written.
-/

namespace Mensura

variable {p : Program}

/-! ### Functions -/

/-- What is known of the parameters in scope when `rest` is still to be checked. -/
def Function.Entered (p : Program) (f : Function) (rest : List Param) (types : Scope Ty) : Prop :=
  ∃ done ms, f.params = done ++ rest ∧ (done.map (·.name.name)).Nodup ∧ p.Takes done ms ∧
    types.Related p.Declared (.ofList ((done.map (·.name.name)).zip ms)) ∧
    ∀ name, types.contains name = true ↔ name ∈ done.map (·.name.name)

theorem Function.Entered.start {f : Function} : f.Entered p f.params .empty :=
  ⟨[], [], rfl, .nil, .nil, .empty, fun _ => ⟨nofun, nofun⟩⟩

theorem Function.Entered.next {f : Function} {param : Param} {rest : List Param} {types : Scope Ty} {m : Meaning}
    (entered : f.Entered p (param :: rest) types) (new : types.contains param.name.name = false)
    (means : param.type.meaning p.unitTable = some m) :
    f.Entered p rest (types.set param.name.name param.type) := by
  obtain ⟨done, ms, whole, distinct, takes, related, contained⟩ := entered
  have fresh : param.name.name ∉ done.map (·.name.name) := by
    intro mem
    rw [(contained _).mpr mem] at new
    cases new
  refine ⟨done ++ [param], ms ++ [m], by simp [whole], ?_, List.rel_append takes (.cons means .nil), ?_, ?_⟩
  · rw [List.map_append, List.nodup_append]
    refine ⟨distinct, List.nodup_singleton _, ?_⟩
    rintro a ha b hb rfl
    rw [List.map_singleton, List.mem_singleton] at hb
    exact fresh (hb ▸ ha)
  · have last : Scope.ofList ((((done ++ [param]).map (·.name.name))).zip (ms ++ [m])) =
        (Scope.ofList ((done.map (·.name.name)).zip ms)).set param.name.name m := by
      rw [List.map_append, List.zip_append (by simp [takes.length_eq]), Scope.ofList, List.foldl_append]
      rfl
    rw [last]
    exact related.set means
  · intro name
    rw [List.map_append, List.mem_append, ← contained name, List.map_singleton, List.mem_singleton,
      Scope.contains, Scope.get?_set]
    by_cases same : name = param.name.name <;> simp [same, Scope.contains]

theorem Program.takes_mem {params : List Param} {ms : List Meaning} {param : Param} (takes : p.Takes params ms)
    (mem : param ∈ params) : ∃ m, param.type.meaning p.unitTable = some m := by
  obtain ⟨m, -, means⟩ := exists_of_mem_right (R := flip _) takes.flip mem
  exact ⟨m, means⟩

theorem Program.takes_unique {params : List Param} {ms ns : List Meaning} (hm : p.Takes params ms)
    (hn : p.Takes params ns) : ms = ns :=
  List.right_unique_forall₂' (fun _ _ _ h k => Option.some.inj (h.symm.trans k)) hm hn

/-- The parameters make up the scope that the body of a well typed function begins with. -/
theorem Program.parameterTypes_ends {f : Function} :
    Ends (fun e => ¬ f.WellTyped p ∨ e.fault.SpellingDependent)
      (fun types => (f.params.map (·.name.name)).Nodup ∧ ∃ ms, p.Takes f.params ms ∧
        types.Related p.Declared (f.meanings ms))
      (p.parameterTypes f) := by
  refine Ends.mono (Ends.foldlM (f.Entered p) ?_ .start) ?_
  · intro param rest types entered
    dsimp only
    cases new : types.contains param.name.name with
    | true =>
      obtain ⟨done, ms, whole, -, -, -, contained⟩ := entered
      apply Or.inl
      rintro ⟨distinct, -⟩
      rw [whole, List.map_append, List.nodup_append] at distinct
      exact distinct.2.2 _ ((contained _).mp new) _ List.mem_cons_self rfl
    | false =>
      have checked := checkType_agrees (p := p) param.type param.name.position
      refine Ends.bind (checked.ends ?_ fun _ m means _ => entered.next new means)
      rintro none ⟨-, ms, _, _, takes, -⟩
      obtain ⟨done, _, whole, -⟩ := entered
      obtain ⟨m, means⟩ := takes_mem takes (whole ▸ List.mem_append_right _ List.mem_cons_self)
      rw [none] at means
      cases means
  · rintro types ⟨done, ms, whole, distinct, takes, related, -⟩
    rw [List.append_nil] at whole
    subst whole
    exact ⟨distinct, ms, takes, related⟩

theorem Check.within_ofExcept {α : Type} {allowed : TypingError → Prop} {good : α → Prop}
    {result : Except TypingError α} {c : Checker} (h : Ends allowed good result) :
    Within allowed (Check.ofExcept result) c fun a t => t = c ∧ good a := by
  cases result with
  | ok a => exact ⟨rfl, h⟩
  | error e => exact h

/-- After a function everything in scope is as it was. -/
theorem Check.within_inCall {allowed : TypingError → Prop} {good : Prop} {f : Function} {types : Scope Ty}
    {body : Check Unit} {c : Checker}
    (h : Within allowed body ⟨c.names.enter types, some f⟩ fun _ t =>
      Checker.Extends ⟨c.names.enter types, some f⟩ t ∧ good) :
    Within allowed (Check.inCall f types body) c fun _ t => t = ⟨c.names, none⟩ ∧ good := by
  refine Within.around (run_inCall f types body c) (h.mono ?_)
  rintro _ t ⟨⟨scope, rfl⟩, holds⟩
  exact ⟨rfl, holds⟩

/-- A function is let through exactly if it is well typed. -/
theorem Program.checkFunction_within (signed : p.Signed) {f : Function} {c : Checker} :
    Within (fun e => ¬ f.WellTyped p ∨ e.fault.SpellingDependent) (p.checkFunction f) c
      (fun _ t => t = ⟨c.names, none⟩ ∧ f.WellTyped p) := by
  unfold checkFunction
  apply (Check.within_ofExcept parameterTypes_ends).seq
  rintro types c ⟨rfl, distinct, ms, takes, related⟩
  have result : Ends (fun e => ¬ f.WellTyped p ∨ e.fault.SpellingDependent)
      (fun _ => ∃ k, f.returnType.meaning p.unitTable = some k) (p.checkType f.returnType f.name.position) := by
    refine (checkType_agrees f.returnType f.name.position).ends ?_ fun _ k means _ => ⟨k, means⟩
    intro none
    rintro ⟨-, _, k, _, -, means, -⟩
    rw [none] at means
    cases means
  apply (Check.within_ofExcept result).seq
  rintro _ c ⟨rfl, k, means⟩
  refine Check.within_inCall ?_
  have fits : Checker.Fits p k (.ofParameters (f.meanings ms)) ⟨c.names.enter types, some f⟩ :=
    ⟨.ofParameters related, means⟩
  refine (Stmt.checkAll_agrees signed fits f.body).within ?_ ?_
  · intro none
    rintro ⟨-, ms', k', names, takes', means', typed⟩
    obtain rfl : ms = ms' := takes_unique takes takes'
    rw [means] at means'
    cases means'
    rw [none] at typed
    cases typed
  · rintro _ t names typed ⟨grown, -⟩
    exact ⟨grown, distinct, ms, k, names, takes, means, typed⟩

/-! ### Programs -/

theorem Program.checkUnitDeclaration_within {d : UnitDeclaration} (mem : d ∈ p.units) {c : Checker} :
    Within (fun e => ¬ p.WellTyped ∨ e.fault.SpellingDependent) (p.checkUnitDeclaration d) c
      (fun _ t => t = c ∧ ∃ m, (Ty.quantity (.ofName d.name.name)).meaning p.unitTable = some m) := by
  have checked : Agrees (fun _ _ => True) (p.checkUnit (.ofName d.name.name) d.name.position)
      ((Ty.quantity (.ofName d.name.name)).meaning p.unitTable) :=
    (checkType_agrees (.quantity (.ofName d.name.name)) d.name.position).mono fun _ _ _ => trivial
  refine Check.within_ofExcept (checked.ends ?_ fun _ m means _ => ⟨m, means⟩)
  intro none typed
  obtain ⟨m, means⟩ := typed.units d mem
  rw [none] at means
  cases means

theorem Program.checkMain_within {c : Checker} :
    Within (fun e => ¬ p.WellTyped ∨ e.fault.SpellingDependent) p.checkMain c
      (fun _ _ => ∀ f, p.function? "main" = some f → f.params = []) := by
  unfold checkMain
  cases main : p.function? "main" with
  | none => exact nofun
  | some f =>
    dsimp only
    cases empty : f.params.isEmpty with
    | true =>
      intro g found
      cases found
      exact List.isEmpty_iff.mp empty
    | false =>
      apply Or.inl
      intro typed
      rw [typed.main f main] at empty
      cases empty

/-- What the checker begins with. -/
theorem Checker.fits_start : Checker.start.Fits p .void (.ofParameters .empty) :=
  ⟨.ofParameters .empty, rfl⟩

theorem Program.checkStatements_within (signed : p.Signed) :
    Within (fun e => ¬ p.WellTyped ∨ e.fault.SpellingDependent) (Stmt.checkAll p p.statements) .start
      (fun _ _ => ∃ names, Stmt.afterAll p .void p.statements (.ofParameters .empty) = some names) := by
  refine (Stmt.checkAll_agrees signed Checker.fits_start p.statements).within ?_ ?_
  · intro none typed
    obtain ⟨names, typed⟩ := typed.statements
    rw [none] at typed
    cases typed
  · exact fun _ _ names typed _ => ⟨names, typed⟩

theorem Program.check_within (signed : p.Signed) :
    Within (fun e => ¬ p.WellTyped ∨ e.fault.SpellingDependent) p.check .start (fun _ _ => p.WellTyped) := by
  unfold check
  have units : Within (fun e => ¬ p.WellTyped ∨ e.fault.SpellingDependent)
      (p.unitsInOrder.forM p.checkUnitDeclaration) .start _ :=
    Within.forM (· = .start) (fun d => ∃ m, (Ty.quantity (.ofName d.name.name)).meaning p.unitTable = some m)
      (fun d mem _ same => same ▸ checkUnitDeclaration_within (List.mem_mergeSort.mp mem)) rfl
  apply units.seq
  rintro _ _ ⟨rfl, units⟩
  apply (checkStatements_within signed).seq
  intro _ c statements
  have functions : Within (fun e => ¬ p.WellTyped ∨ e.fault.SpellingDependent)
      (p.functionsInOrder.forM p.checkFunction) c fun _ _ => ∀ f ∈ p.functionsInOrder, f.WellTyped p := by
    apply Within.forEach
    intro f mem c
    have declared := (checkFunction_within signed (f := f) (c := c)).mono fun _ _ h => h.2
    apply declared.allow
    rintro e (wrong | spelling)
    · exact .inl fun typed => wrong (typed.functions f (List.mem_mergeSort.mp mem))
    · exact .inr spelling
  apply functions.seq
  intro _ c functions
  apply checkMain_within.mono
  intro _ _ main
  exact ⟨fun d mem => units d (List.mem_mergeSort.mpr mem), statements,
    fun f mem => functions f (List.mem_mergeSort.mpr mem), main⟩

/-- Checking comes to its end only if all functions say properly what they give back. -/
theorem Program.signed_of_check : Within (fun _ => True) p.check .start fun _ _ => p.Signed := by
  have result (f : Function) : Ends (fun _ => True) (fun _ => ∃ k, f.returnType.meaning p.unitTable = some k)
      (p.checkType f.returnType f.name.position) := by
    have agrees := checkType_agrees (p := p) f.returnType f.name.position
    cases checked : p.checkType f.returnType f.name.position with
    | error e => exact trivial
    | ok a =>
      rw [checked] at agrees
      obtain ⟨k, means, -⟩ := agrees
      exact ⟨k, means⟩
  have functions (c : Checker) : Within (fun _ => True) (p.functionsInOrder.forM p.checkFunction) c
      fun _ _ => ∀ f ∈ p.functionsInOrder, ∃ k, f.returnType.meaning p.unitTable = some k := by
    apply Within.forEach
    intro f _ c
    unfold checkFunction
    apply Within.anyhow.seq
    intro types c _
    apply (Check.within_ofExcept (result f)).seq
    rintro _ c ⟨-, means⟩
    exact Within.anyhow.mono fun _ _ _ => means
  unfold check
  apply Within.anyhow.seq
  intro _ _ _
  apply Within.anyhow.seq
  intro _ c _
  apply (functions c).seq
  intro _ _ functions
  apply Within.anyhow.mono
  intro _ _ _ f mem
  exact functions f (List.mem_mergeSort.mpr mem)

/-- Checking accepts well typed programs only, and refuses other programs only, but for faults of spelling. -/
theorem Program.checked_ends :
    Ends (fun e => ¬ p.WellTyped ∨ e.fault.SpellingDependent) (fun _ => p.WellTyped) p.checked := by
  have ends {P : Prop} {allowed : TypingError → Prop} (h : Within allowed p.check .start fun _ _ => P) :
      Ends allowed (fun _ => P) p.checked := by
    unfold checked
    unfold Within at h
    generalize p.check.run.run .start = r at h
    obtain ⟨_ | _, _⟩ := r <;> exact h
  by_cases signed : p.Signed
  · exact ends (check_within signed)
  · have notTyped : ¬ p.WellTyped := by
      intro typed
      apply signed
      intro f mem
      obtain ⟨-, _, k, _, -, means, -⟩ := typed.functions f mem
      exact ⟨k, means⟩
    have signed' := ends signed_of_check
    cases checked : p.checked with
    | ok _ =>
      rw [checked] at signed'
      exact absurd signed' signed
    | error e => exact .inl notTyped

theorem Program.wellTyped_of_checked (accepted : p.checked = .ok ()) : p.WellTyped := by
  have ends := p.checked_ends
  rwa [accepted] at ends

end Mensura
