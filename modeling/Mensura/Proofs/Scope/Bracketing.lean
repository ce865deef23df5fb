import Mathlib.Data.List.Induction
import Mensura.Proofs.Evaluation.Frame
import Mensura.Proofs.Scope.Under

/-!
Runs of operations on the scopes. Every scope that is opened is closed again, and so is every call. Main statement: a
call leaves the stack as it was, and a block comes to those of its assignments that find their names neither in the
block itself nor in the blocks opened in it.
-/

namespace Mensura

variable {α : Type}

namespace Context

variable {c : Context α} {name m : String} {value : α}

/-- Changes the nearest meaning of a name, if it has one. -/
def assign (c : Context α) (name : String) (value : α) : Context α := (c.assign? name value).getD c

/-- Changes names one after the other. -/
def assignAll (c : Context α) (changes : List (String × α)) : Context α :=
  changes.foldl (fun c change => c.assign change.1 change.2) c

theorem lookup_assign (c : Context α) :
    (c.assign name value).lookup m = if m = name then (c.lookup name).map fun _ => value else c.lookup m := by
  have known : (c.assign? name value).isSome = (c.lookup name).isSome := isSome_assign? c
  rw [assign]
  cases changed : c.assign? name value with
  | some d =>
    obtain ⟨old, found⟩ := Option.isSome_iff_exists.mp (by rw [← known, changed]; rfl)
    rw [Option.getD_some, lookup_of_assign? changed, found]
    rfl
  | none =>
    have absent : c.lookup name = none := by simpa [changed] using known.symm
    by_cases same : m = name <;> simp [same, absent]

theorem lookup_assign_self (known : c.declares name = true) : (c.assign name value).lookup name = some value := by
  obtain ⟨old, found⟩ := Option.isSome_iff_exists.mp known
  rw [lookup_assign, if_pos rfl, found]
  rfl

theorem lookup_assign_of_ne (other : m ≠ name) : (c.assign name value).lookup m = c.lookup m := by
  rw [lookup_assign, if_neg other]

theorem declares_assign (c : Context α) : (c.assign name value).declares m = c.declares m := by
  by_cases same : m = name
  · rw [declares, lookup_assign, if_pos same, Option.isSome_map, same]
    rfl
  · rw [declares, lookup_assign_of_ne same]
    rfl

/-- The innermost scope is closed, but for the last one that is there beside the parameters. -/
theorem length_scopes_pop (c : Context α) : c.pop.scopes.length = max 2 (c.scopes.length - 1) := by
  obtain ⟨parameters, innermost, _ | ⟨outer, rest⟩⟩ := c <;> simp [pop, scopes]

/-- Of several changes of a name the last one counts, and only names that have a meaning can be changed. -/
theorem lookup_assignAll (c : Context α) (changes : List (String × α)) :
    (c.assignAll changes).lookup name =
      (c.lookup name).map fun old => ((Scope.ofList changes).get? name).getD old := by
  induction changes using List.reverseRecOn with
  | nil => simp [assignAll, Scope.ofList]
  | append_singleton changes change ih =>
    have last : c.assignAll (changes ++ [change]) = (c.assignAll changes).assign change.1 change.2 := by
      simp [assignAll]
    have listed : Scope.ofList (changes ++ [change]) = (Scope.ofList changes).set change.1 change.2 := by
      simp [Scope.ofList]
    rw [last, listed, lookup_assign, Scope.get?_set]
    by_cases same : name = change.1
    · subst same
      simp [ih, Function.comp_def]
    · simp [same, ih]

theorem declares_eq_of_lookup {d : Context α} {f : α → α} (h : d.lookup name = (c.lookup name).map f) :
    d.declares name = c.declares name := by
  rw [declares, declares, h, Option.isSome_map]

/-- An assignment among further scopes reaches the context below if none of them has the name. -/
theorem assign_under_of_absent {ss : List (Scope α)} (c : Context α) (absent : ∀ s ∈ ss, s.contains name = false) :
    (c.under ss).assign name value = (c.assign name value).under ss := by
  have missing : assignNearest name value ss = none := by
    rw [assignNearest_eq_none_iff, List.findSome?_eq_none_iff]
    exact fun s mem => by simpa [Scope.contains] using absent s mem
  rw [assign, assign?_under, missing, assign]
  cases c.assign? name value <;> rfl

theorem assign_under_of_present {ss ts : List (Scope α)} (c : Context α)
    (changed : assignNearest name value ss = some ts) : (c.under ss).assign name value = c.under ts := by
  rw [assign, assign?_under, changed]
  rfl

end Context

namespace CallStack

/-- The operations on the scopes that are open. -/
inductive Step (α : Type) where
  | declare (name : String) (value : α)
  | assign (name : String) (value : α)
  | push
  | pop
  | enter (parameters : Scope α)
  | exit

/-- An assignment of a name without a meaning, an end of a block where only one scope is open, and an end of a call
where there is none, change nothing. -/
def step (s : CallStack α) : Step α → CallStack α
  | .declare name value => s.modify (·.declare name value)
  | .assign name value => s.modify (·.assign name value)
  | .push => s.modify .push
  | .pop => s.modify .pop
  | .enter parameters => s.enter parameters
  | .exit => s.exit

/-- The stack that operations lead to, one after the other. -/
def after (s : CallStack α) (steps : List (Step α)) : CallStack α := steps.foldl step s

/-- Every block and every call that is begun is ended, the later ones first. -/
inductive Bracketed : List (Step α) → Prop where
  | nil : Bracketed []
  | declare (name : String) (value : α) {w : List (Step α)} (rest : Bracketed w) :
      Bracketed (.declare name value :: w)
  | assign (name : String) (value : α) {w : List (Step α)} (rest : Bracketed w) :
      Bracketed (.assign name value :: w)
  | block {body w : List (Step α)} (inside : Bracketed body) (rest : Bracketed w) :
      Bracketed (.push :: (body ++ .pop :: w))
  | call (parameters : Scope α) {body w : List (Step α)} (inside : Bracketed body) (rest : Bracketed w) :
      Bracketed (.enter parameters :: (body ++ .exit :: w))

/-- What can be told of operations in a block while they go on: how many calls have been begun in it and not ended,
which names have been declared in each scope that is open from the block on, the innermost first, and which
assignments, outside of these calls, were of names that none of these scopes had. -/
structure Passage (α : Type) where
  calls : Nat
  bound : List (List String)
  passed : List (String × α)

namespace Passage

/-- At the beginning of a block. -/
def start : Passage α := ⟨0, [[]], []⟩

def next : Passage α → Step α → Passage α
  | ⟨calls, bound, passed⟩, .enter _ => ⟨calls + 1, bound, passed⟩
  | ⟨calls, bound, passed⟩, .exit => ⟨calls - 1, bound, passed⟩
  | ⟨0, bound, passed⟩, .push => ⟨0, [] :: bound, passed⟩
  | ⟨0, bound, passed⟩, .pop => ⟨0, bound.tail, passed⟩
  | ⟨0, bound, passed⟩, .declare name _ => ⟨0, bound.modifyHead (name :: ·), passed⟩
  | ⟨0, bound, passed⟩, .assign name value =>
    if name ∈ bound.flatten then ⟨0, bound, passed⟩ else ⟨0, bound, passed ++ [(name, value)]⟩
  | ⟨calls + 1, bound, passed⟩, _ => ⟨calls + 1, bound, passed⟩

end Passage

/-- The assignments in a block that are meant for names outside of it, in order. -/
def passing (w : List (Step α)) : List (String × α) := (w.foldl Passage.next .start).passed

variable {s : CallStack α} {w : List (Step α)}

@[simp] theorem current_step_declare (s : CallStack α) (name : String) (value : α) :
    (s.step (.declare name value)).current = s.current.declare name value := current_modify _ s

@[simp] theorem current_step_assign (s : CallStack α) (name : String) (value : α) :
    (s.step (.assign name value)).current = s.current.assign name value := current_modify _ s

@[simp] theorem current_step_push (s : CallStack α) : (s.step .push).current = s.current.push := current_modify _ s

@[simp] theorem current_step_pop (s : CallStack α) : (s.step .pop).current = s.current.pop := current_modify _ s

theorem after_cons (s : CallStack α) (step : Step α) (w : List (Step α)) :
    s.after (step :: w) = (s.step step).after w := rfl

theorem after_append (s : CallStack α) (v w : List (Step α)) : s.after (v ++ w) = (s.after v).after w :=
  List.foldl_append

theorem after_assignments (s : CallStack α) (changes : List (String × α)) :
    s.after (changes.map fun change => .assign change.1 change.2) = s.modify (·.assignAll changes) := by
  induction changes generalizing s with
  | nil => exact (modify_eq_self rfl).symm
  | cons change changes ih =>
    rw [List.map_cons, after_cons, ih, step, modify_modify]
    rfl

/-! ### Calls -/

/-- Steps that are well bracketed change nothing but the present context. -/
theorem Bracketed.modifies (h : Bracketed w) (s : CallStack α) : ∃ c, s.after w = s.modify fun _ => c := by
  induction h generalizing s with
  | nil => exact ⟨s.current, (modify_eq_self rfl).symm⟩
  | declare name value _ ih =>
    obtain ⟨c, rest⟩ := ih (s.modify (·.declare name value))
    exact ⟨c, rest.trans (modify_modify _ _)⟩
  | assign name value _ ih =>
    obtain ⟨c, rest⟩ := ih (s.modify (·.assign name value))
    exact ⟨c, rest.trans (modify_modify _ _)⟩
  | block _ _ ihInside ihRest =>
    obtain ⟨d, inside⟩ := ihInside (s.modify .push)
    obtain ⟨c, rest⟩ := ihRest (s.modify fun _ => d.pop)
    refine ⟨c, ?_⟩
    rw [after_cons, after_append, after_cons, step, inside, step, modify_modify, modify_modify]
    exact rest.trans (modify_modify _ _)
  | call parameters _ _ ihInside ihRest =>
    obtain ⟨d, inside⟩ := ihInside (s.enter parameters)
    obtain ⟨c, rest⟩ := ihRest s
    refine ⟨c, ?_⟩
    rw [after_cons, after_append, after_cons, step, inside, step, exit_modify_enter]
    exact rest

/-- A call leaves nothing behind. -/
theorem Bracketed.after_call (h : Bracketed w) (s : CallStack α) (parameters : Scope α) :
    s.after (.enter parameters :: (w ++ [.exit])) = s := by
  obtain ⟨c, inside⟩ := h.modifies (s.enter parameters)
  rw [after_cons, after_append, step, inside]
  exact exit_modify_enter parameters _

/-! ### Blocks -/

/-- These are the names of the scope. -/
def Binds (s : Scope α) (names : List String) : Prop := ∀ name, s.contains name = true ↔ name ∈ names

theorem Binds.empty : Binds (.empty : Scope α) [] := by simp [Binds, Scope.contains]

theorem Binds.set {s : Scope α} {names : List String} {name : String} {value : α} (h : Binds s names) :
    Binds (s.set name value) (name :: names) := by
  intro m
  have known := h m
  rw [Scope.contains] at known ⊢
  rw [Scope.get?_set, List.mem_cons, ← known]
  by_cases same : m = name <;> simp [same]

/-- To set a name that is there adds none. -/
theorem Binds.set_of_mem {s : Scope α} {names : List String} {name : String} {value : α} (h : Binds s names)
    (known : name ∈ names) : Binds (s.set name value) names := by
  intro m
  rw [h.set m, List.mem_cons, or_iff_right_of_imp]
  rintro rfl
  exact known

/-- Among scopes with known names, an assignment changes one that has its name, if there is one. -/
theorem assignNearest_of_binds {ss : List (Scope α)} {bound : List (List String)} {name : String} {value : α}
    (names : List.Forall₂ Binds ss bound) (known : name ∈ bound.flatten) :
    ∃ ts, Context.assignNearest name value ss = some ts ∧ List.Forall₂ Binds ts bound := by
  induction names with
  | nil => cases known
  | @cons s ns ss bound first rest ih =>
    by_cases here : s.contains name = true
    · exact ⟨s.set name value :: ss, by rw [Context.assignNearest, if_pos here],
        .cons (first.set_of_mem ((first name).mp here)) rest⟩
    · have behind : name ∈ bound.flatten := by simpa [← first name, here] using known
      obtain ⟨ts, changed, names⟩ := ih behind
      exact ⟨s :: ts, by rw [Context.assignNearest, if_neg here, changed]; rfl, .cons first names⟩

namespace Passage

/-- The scopes have the names that have been declared in them, and the assignments that went past them have been made
in the context around the block. -/
structure Describes (q : Passage α) (outer c : Context α) : Prop where
  present : q.calls = 0
  scopes : ∃ ss, List.Forall₂ Binds ss q.bound ∧ c = (outer.assignAll q.passed).under ss

namespace Describes

variable {q : Passage α} {outer c : Context α} {name : String} {value : α}

theorem start (c : Context α) : Passage.start.Describes c c.push where
  present := rfl
  scopes := ⟨[.empty], .cons .empty .nil, rfl⟩

theorem push (h : q.Describes outer c) : (q.next .push).Describes outer c.push := by
  obtain ⟨calls, bound, passed⟩ := q
  obtain ⟨rfl, ss, names, rfl⟩ := h
  exact ⟨rfl, .empty :: ss, .cons .empty names, Context.push_under _ _⟩

theorem pop (h : q.Describes outer c) (inside : 0 < q.bound.length) : (q.next .pop).Describes outer c.pop := by
  obtain ⟨calls, bound, passed⟩ := q
  obtain ⟨rfl, ss, names, rfl⟩ := h
  cases names with
  | nil => cases inside
  | cons first rest => exact ⟨rfl, _, rest, Context.pop_under _ _ _⟩

theorem declare (h : q.Describes outer c) (inside : 0 < q.bound.length) :
    (q.next (.declare name value)).Describes outer (c.declare name value) := by
  obtain ⟨calls, bound, passed⟩ := q
  obtain ⟨rfl, ss, names, rfl⟩ := h
  cases names with
  | nil => cases inside
  | cons first rest => exact ⟨rfl, _, .cons first.set rest, Context.declare_under _ _ _⟩

theorem assign (h : q.Describes outer c) :
    (q.next (.assign name value)).Describes outer (c.assign name value) := by
  obtain ⟨calls, bound, passed⟩ := q
  obtain ⟨rfl, ss, names, rfl⟩ := h
  by_cases known : name ∈ bound.flatten
  · obtain ⟨ts, changed, names⟩ : ∃ ts, Context.assignNearest name value ss = some ts ∧ List.Forall₂ Binds ts bound :=
      assignNearest_of_binds names known
    rw [Passage.next, if_pos known, Context.assign_under_of_present _ changed]
    exact ⟨rfl, ts, names, rfl⟩
  · have absent : ∀ s ∈ ss, s.contains name = false := by
      intro s mem
      obtain ⟨ns, listed, first⟩ := exists_of_mem_right names.flip mem
      have unlisted : name ∉ ns := fun here => known (List.mem_flatten.mpr ⟨ns, listed, here⟩)
      rwa [← first name, Bool.not_eq_true] at unlisted
    rw [Passage.next, if_neg known, Context.assign_under_of_absent _ absent]
    exact ⟨rfl, ss, names, by simp [Context.assignAll]⟩

end Describes

/-- What happens in a call is not looked at. -/
theorem foldl_next_of_call (h : Bracketed w) (calls : Nat) (bound : List (List String)) (passed : List (String × α)) :
    w.foldl next ⟨calls + 1, bound, passed⟩ = ⟨calls + 1, bound, passed⟩ := by
  induction h generalizing calls with
  | nil => rfl
  | declare name value _ ih | assign name value _ ih => exact ih calls
  | @block body w _ _ ihInside ihRest =>
    rw [List.foldl_cons, List.foldl_append]
    change (Step.pop :: w).foldl next (body.foldl next ⟨calls + 1, bound, passed⟩) = _
    rw [ihInside]
    exact ihRest calls
  | @call parameters body w _ _ ihInside ihRest =>
    rw [List.foldl_cons, List.foldl_append]
    change (Step.exit :: w).foldl next (body.foldl next ⟨calls + 1 + 1, bound, passed⟩) = _
    rw [ihInside]
    exact ihRest calls

theorem length_next_declare (q : Passage α) (name : String) (value : α) :
    (q.next (.declare name value)).bound.length = q.bound.length := by
  obtain ⟨_ | _, bound, passed⟩ := q <;> simp [next]

theorem length_next_assign (q : Passage α) (name : String) (value : α) :
    (q.next (.assign name value)).bound.length = q.bound.length := by
  obtain ⟨_ | _, bound, passed⟩ := q <;> simp only [next]
  split <;> rfl

theorem next_pop {q : Passage α} (present : q.calls = 0) : q.next .pop = ⟨0, q.bound.tail, q.passed⟩ := by
  obtain ⟨calls, bound, passed⟩ := q
  obtain rfl : calls = 0 := present
  rfl

/-- A description of a block is kept up by steps that are well bracketed, and so is the number of its scopes. -/
theorem Describes.after {q : Passage α} {outer : Context α} (h : Bracketed w) (described : q.Describes outer s.current)
    (inside : 0 < q.bound.length) :
    (w.foldl next q).Describes outer (s.after w).current ∧ (w.foldl next q).bound.length = q.bound.length := by
  induction h generalizing q s with
  | nil => exact ⟨described, rfl⟩
  | declare name value _ ih =>
    have first : (q.next (.declare name value)).Describes outer (s.step (.declare name value)).current := by
      rw [current_step_declare]
      exact described.declare inside
    have length := q.length_next_declare name value
    obtain ⟨rest, kept⟩ := ih first (length ▸ inside)
    exact ⟨rest, kept.trans length⟩
  | assign name value _ ih =>
    have first : (q.next (.assign name value)).Describes outer (s.step (.assign name value)).current := by
      rw [current_step_assign]
      exact described.assign
    have length := q.length_next_assign name value
    obtain ⟨rest, kept⟩ := ih first (length ▸ inside)
    exact ⟨rest, kept.trans length⟩
  | @block body w _ _ ihInside ihRest =>
    obtain ⟨calls, bound, passed⟩ := q
    obtain rfl : calls = 0 := described.present
    have opened : Describes ⟨0, [] :: bound, passed⟩ outer (s.step .push).current := by
      rw [current_step_push]
      exact described.push
    obtain ⟨ends, length⟩ := ihInside opened (Nat.succ_pos _)
    have closed : ((body.foldl next ⟨0, [] :: bound, passed⟩).next .pop).Describes outer
        (((s.step .push).after body).step .pop).current := by
      rw [current_step_pop]
      exact ends.pop (length ▸ Nat.succ_pos _)
    have shorter : ((body.foldl next ⟨0, [] :: bound, passed⟩).next .pop).bound.length = bound.length := by
      rw [next_pop ends.present, List.length_tail, length]
      rfl
    obtain ⟨rest, kept⟩ := ihRest closed (shorter ▸ inside)
    rw [after_cons, after_append, after_cons, List.foldl_cons, List.foldl_append, List.foldl_cons]
    exact ⟨rest, kept.trans shorter⟩
  | @call parameters body w insideCall _ ihInside ihRest =>
    obtain ⟨calls, bound, passed⟩ := q
    obtain rfl : calls = 0 := described.present
    have unseen : (body ++ [Step.exit]).foldl next ⟨1, bound, passed⟩ = ⟨0, bound, passed⟩ := by
      rw [List.foldl_append, foldl_next_of_call insideCall]
      rfl
    have gone := insideCall.after_call s parameters
    have split : Step.enter parameters :: (body ++ Step.exit :: w) =
        Step.enter parameters :: (body ++ [Step.exit]) ++ w := by simp
    rw [split, after_append, gone, List.foldl_append, List.foldl_cons, next, unseen]
    exact ihRest described inside

end Passage

/-- A block comes to the assignments in it that are meant for names outside of it. -/
theorem Bracketed.after_block (h : Bracketed w) (s : CallStack α) :
    s.after (.push :: (w ++ [.pop])) = s.modify (·.assignAll (passing w)) := by
  obtain ⟨c, inside⟩ := h.modifies (s.step .push)
  have opened : Passage.start.Describes s.current (s.step .push).current := by
    rw [current_step_push]
    exact .start s.current
  obtain ⟨ends, length⟩ := opened.after h Nat.one_pos
  have closed := ends.pop (length ▸ Nat.one_pos)
  rw [inside, current_modify, Passage.next_pop ends.present] at closed
  obtain ⟨-, ss, names, whole⟩ := closed
  have none : ss = [] := by
    have count := names.length_eq
    rw [List.length_tail, length] at count
    exact List.length_eq_zero_iff.mp count
  rw [none] at whole
  have assigned : c.pop = s.current.assignAll (passing w) := whole
  calc s.after (.push :: (w ++ [.pop]))
      = ((s.modify .push).modify fun _ => c).modify .pop := by
        rw [after_cons, after_append, inside]
        rfl
    _ = s.modify fun _ => s.current.assignAll (passing w) := by
        rw [modify_modify, modify_modify, ← assigned]
        rfl
    _ = s.modify (·.assignAll (passing w)) := (modify_eq_const (·.assignAll (passing w))).symm

/-- Every operation keeps a scope in every context, beside that of its parameters, also where there is nothing left to
close: the first part says so of the type of a context, the second of the number of scopes when one is closed. So a
declared name has the value that it was declared with, whatever has happened before. A name can be assigned
just if it has a meaning; then it has the new value, every other name means what it meant, and the same names have
meanings. Steps that are well bracketed leave the stack as it was when they are made inside a call. Made inside a block
they come to those of their assignments, outside of calls, of which neither the block nor any block opened in it had
the name at that moment: the same names have meanings, and the last of these assignments of a name gives its value. -/
theorem bracketing (start : CallStack α) (history : List (Step α)) :
    let s := start.after history
    (∀ c ∈ s.global :: s.calls, 2 ≤ c.scopes.length) ∧
    (s.step .pop).current.scopes.length = max 2 (s.current.scopes.length - 1) ∧
    (∀ name value, (s.step (.declare name value)).current.lookup name = some value) ∧
    (∀ name value,
      let t := s.step (.assign name value)
      (s.current.assign? name value).isSome = s.current.declares name ∧
        (s.current.declares name = true → t.current.lookup name = some value) ∧
        (∀ m, m ≠ name → t.current.lookup m = s.current.lookup m) ∧
        (∀ m, t.current.declares m = s.current.declares m) ∧ t.waiting = s.waiting) ∧
    ∀ w, Bracketed w →
      (∀ parameters, s.after (.enter parameters :: (w ++ [.exit])) = s) ∧
      let t := s.after (.push :: (w ++ [.pop]))
      t = s.after ((passing w).map fun change => .assign change.1 change.2) ∧
        (∀ name, t.current.declares name = s.current.declares name) ∧
        ∀ name, t.current.lookup name =
          (s.current.lookup name).map fun old => ((Scope.ofList (passing w)).get? name).getD old := by
  intro s
  refine ⟨?kept, ?closing, ?declared, ?assigned, ?bracketed⟩
  case kept =>
    intro c _
    simp [Context.scopes]
  case closing =>
    rw [current_step_pop]
    exact s.current.length_scopes_pop
  case declared =>
    intro name value
    rw [current_step_declare, Context.lookup_declare, if_pos rfl]
  case assigned =>
    intro name value t
    have changed : t.current = s.current.assign name value := current_step_assign s name value
    rw [changed]
    exact ⟨Context.isSome_assign? _, Context.lookup_assign_self, fun m => Context.lookup_assign_of_ne,
      fun m => Context.declares_assign _, waiting_modify _ _⟩
  case bracketed =>
    intro w h
    refine ⟨h.after_call s, ?_⟩
    intro t
    have block : t = s.modify (·.assignAll (passing w)) := h.after_block s
    have looked (name : String) : t.current.lookup name =
        (s.current.lookup name).map fun old => ((Scope.ofList (passing w)).get? name).getD old := by
      rw [block, current_modify, Context.lookup_assignAll]
    exact ⟨block.trans (after_assignments s _).symm, fun name => Context.declares_eq_of_lookup (looked name), looked⟩

/-- A block changes one name before it declares the name itself, and the other in a block inside, while a call in it
changes neither. -/
theorem bracketing_shadowed :
    let s : CallStack Nat := CallStack.empty.after [.pop, .exit, .declare "a" 1, .declare "b" 2]
    let inner : List (Step Nat) := [.assign "b" 5, .declare "b" 6, .assign "b" 7]
    let w : List (Step Nat) :=
      .assign "a" 3 :: .declare "a" 4 :: .assign "a" 5 :: .push :: (inner ++ .pop ::
        .enter .empty :: ([.declare "b" 8, .assign "b" 9] ++ .exit :: []))
    let t := s.after (.push :: (w ++ [.pop]))
    Bracketed w ∧ passing w = [("a", 3), ("b", 5)] ∧ s.current.lookup "a" = some 1 ∧
      t.current.lookup "a" = some 3 ∧ t.current.lookup "b" = some 5 ∧ t.current.declares "c" = false ∧
      s.after (.enter .empty :: (w ++ [.exit])) = s := by
  intro s inner w t
  have bracketed : Bracketed w :=
    .assign _ _ (.declare _ _ (.assign _ _
      (.block (.assign _ _ (.declare _ _ (.assign _ _ .nil)))
        (.call _ (.declare _ _ (.assign _ _ .nil)) .nil))))
  obtain ⟨-, -, -, -, brackets⟩ :=
    bracketing .empty [.pop, .exit, .declare "a" 1, .declare "b" (2 : Nat)]
  obtain ⟨call, -, declared, looked⟩ := brackets w bracketed
  exact ⟨bracketed, by decide, by decide, (looked "a").trans (by decide), (looked "b").trans (by decide),
    (declared "c").trans (by decide), call .empty⟩

end CallStack

end Mensura
