import Mathlib.Data.List.Forall2
import Mensura.Scope.CallStack

/-!
Scopes that give the same names meanings that are in a relation, such as the types of variables and their
values. What a program does to its scopes keeps them related: opening and closing, declaring, looking up and
assigning. Main statement: an assignment that keeps the meaning of a name leaves a context as it was.
-/

namespace Mensura

variable {α β : Type} {R : α → β → Prop}

/-- Two optional values are related if both are missing, or both are there and related. -/
theorem rel_iff {x : Option α} {y : Option β} :
    Option.Rel R x y ↔ x = none ∧ y = none ∨ ∃ a b, x = some a ∧ y = some b ∧ R a b := by
  constructor
  · intro h
    cases h with
    | none => exact .inl ⟨rfl, rfl⟩
    | some h => exact .inr ⟨_, _, rfl, rfl, h⟩
  · rintro (⟨rfl, rfl⟩ | ⟨a, b, rfl, rfl, h⟩)
    · exact .none
    · exact .some h

namespace Scope

/-- Both scopes have the same names, and what these stand for is related. -/
def Related (R : α → β → Prop) (s : Scope α) (t : Scope β) : Prop :=
  ∀ name, Option.Rel R (s.get? name) (t.get? name)

namespace Related

variable {s : Scope α} {t : Scope β}

theorem empty : Related R .empty .empty := fun _ => .none

theorem set {name : String} {a : α} {b : β} (h : s.Related R t) (value : R a b) :
    (s.set name a).Related R (t.set name b) := by
  intro m
  rw [get?_set, get?_set]
  by_cases same : m = name
  · simpa [same] using Option.Rel.some value
  · simpa [same] using h m

/-- A name that keeps what it is related to may change its value. -/
theorem set_left {name : String} {a : α} {b : β} (h : s.Related R t) (found : t.get? name = some b)
    (value : R a b) : (s.set name a).Related R t := by
  intro m
  rw [get?_set]
  by_cases same : m = name
  · rw [if_pos same, same, found]
    exact .some value
  · rw [if_neg same]
    exact h m

theorem contains (h : s.Related R t) (name : String) : s.contains name = t.contains name := by
  unfold Scope.contains
  obtain ⟨hs, ht⟩ | ⟨a, b, hs, ht, -⟩ := rel_iff.mp (h name) <;> simp [hs, ht]

/-- Scopes are related if they are made from related pairs. -/
theorem ofList {as : List (String × α)} {bs : List (String × β)}
    (h : List.Forall₂ (fun a b => a.1 = b.1 ∧ R a.2 b.2) as bs) : (ofList as).Related R (.ofList bs) := by
  suffices folded : ∀ (s : Scope α) (t : Scope β), s.Related R t →
      (as.foldl (fun s b => s.set b.1 b.2) s).Related R (bs.foldl (fun s b => s.set b.1 b.2) t) from
    folded _ _ .empty
  induction h with
  | nil => exact fun _ _ h => h
  | @cons a b _ _ pair _ ih =>
    obtain ⟨name, value⟩ := a
    obtain ⟨rfl, value⟩ := pair
    intro s t h
    exact ih _ _ (h.set value)

end Related

end Scope

namespace Context

theorem assignNearest_eq_none {name : String} {a : α} {cs : List (Scope α)}
    (missing : cs.findSome? (·.get? name) = none) : assignNearest name a cs = none := by
  induction cs with
  | nil => rfl
  | cons s cs ih =>
    rw [List.findSome?_cons] at missing
    unfold assignNearest Scope.contains
    cases here : s.get? name with
    | some b => rw [here] at missing; cases missing
    | none =>
      rw [here] at missing
      simp [ih missing]

/-- A name without a meaning cannot be assigned. -/
theorem assign?_eq_none {c : Context α} {name : String} {a : α} (missing : c.lookup name = none) :
    c.assign? name a = none := by
  unfold lookup scopes at missing
  rw [List.findSome?_cons] at missing
  unfold assign? Scope.contains
  cases here : c.innermost.get? name with
  | some b => rw [here] at missing; cases missing
  | none =>
    rw [here, List.findSome?_append] at missing
    obtain ⟨outside, parameter⟩ := Option.or_eq_none_iff.mp missing
    have parameter : c.parameters.get? name = none := by simpa using parameter
    simp [assignNearest_eq_none outside, parameter]

/-- The scopes of both contexts are related one by one. -/
structure Related (R : α → β → Prop) (c : Context α) (d : Context β) : Prop where
  parameters : c.parameters.Related R d.parameters
  innermost : c.innermost.Related R d.innermost
  enclosing : List.Forall₂ (Scope.Related R) c.enclosing d.enclosing

namespace Related

variable {c : Context α} {d : Context β} {name : String} {a : α} {b : β}

theorem ofParameters {s : Scope α} {t : Scope β} (h : s.Related R t) : (ofParameters s).Related R (.ofParameters t) :=
  ⟨h, .empty, .nil⟩

theorem push (h : c.Related R d) : c.push.Related R d.push :=
  ⟨h.parameters, .empty, .cons h.innermost h.enclosing⟩

theorem pop (h : c.Related R d) : c.pop.Related R d.pop := by
  obtain ⟨parameters, innermost, enclosing⟩ := h
  obtain ⟨cp, ci, ce⟩ := c
  obtain ⟨dp, di, de⟩ := d
  cases enclosing with
  | nil => exact ⟨parameters, innermost, .nil⟩
  | cons outer rest => exact ⟨parameters, outer, rest⟩

theorem declare (h : c.Related R d) (value : R a b) : (c.declare name a).Related R (d.declare name b) :=
  ⟨h.parameters, h.innermost.set value, h.enclosing⟩

theorem scopes (h : c.Related R d) : List.Forall₂ (Scope.Related R) c.scopes d.scopes :=
  .cons h.innermost (List.rel_append h.enclosing (.cons h.parameters .nil))

theorem lookup (h : c.Related R d) (name : String) : Option.Rel R (c.lookup name) (d.lookup name) := by
  have related := h.scopes
  unfold Context.lookup
  generalize c.scopes = cs at related ⊢
  generalize d.scopes = ds at related ⊢
  induction related with
  | nil => exact .none
  | cons first _ ih =>
    rw [List.findSome?_cons, List.findSome?_cons]
    obtain ⟨hc, hd⟩ | ⟨a, b, hc, hd, value⟩ := rel_iff.mp (first name)
    · simpa only [hc, hd] using ih
    · simpa only [hc, hd] using Option.Rel.some value

theorem declares (h : c.Related R d) (name : String) : c.declares name = d.declares name := by
  unfold Context.declares
  obtain ⟨hc, hd⟩ | ⟨a, b, hc, hd, -⟩ := rel_iff.mp (h.lookup name) <;> simp [hc, hd]

theorem assignNearest {cs : List (Scope α)} {ds : List (Scope β)} (h : List.Forall₂ (Scope.Related R) cs ds)
    (name : String) (value : R a b) :
    Option.Rel (List.Forall₂ (Scope.Related R)) (Context.assignNearest name a cs)
      (Context.assignNearest name b ds) := by
  induction h with
  | nil => exact .none
  | cons first rest ih =>
    unfold Context.assignNearest
    rw [first.contains name]
    split
    · exact .some (.cons (first.set value) rest)
    · obtain ⟨hc, hd⟩ | ⟨cs, ds, hc, hd, rest⟩ := rel_iff.mp ih
      · rw [hc, hd]
        exact .none
      · rw [hc, hd]
        exact .some (.cons first rest)

/-- Assigning related values goes well for both contexts or for none. -/
theorem assign? (h : c.Related R d) (name : String) (value : R a b) :
    Option.Rel (Related R) (c.assign? name a) (d.assign? name b) := by
  unfold Context.assign?
  rw [h.innermost.contains name, h.parameters.contains name]
  split
  · exact .some (h.declare value)
  · obtain ⟨hc, hd⟩ | ⟨cs, ds, hc, hd, enclosing⟩ := rel_iff.mp (assignNearest h.enclosing name value)
    · rw [hc, hd]
      dsimp only
      split
      · exact .some ⟨h.parameters.set value, h.innermost, h.enclosing⟩
      · exact .none
    · rw [hc, hd]
      exact .some ⟨h.parameters, h.innermost, enclosing⟩

/-- Among the scopes around a block, the one that a name is found in is the one that is changed. -/
theorem assignNearest_of_found {cs : List (Scope α)} {ds : List (Scope β)}
    (h : List.Forall₂ (Scope.Related R) cs ds) (value : R a b) (found : ds.findSome? (·.get? name) = some b) :
    ∃ cs', Context.assignNearest name a cs = some cs' ∧ List.Forall₂ (Scope.Related R) cs' ds := by
  induction h with
  | nil => cases found
  | @cons s t cs ds first rest ih =>
    unfold Context.assignNearest
    rw [List.findSome?_cons] at found
    rw [first.contains name, Scope.contains]
    cases here : t.get? name with
    | some b' =>
      rw [here] at found
      cases found
      exact ⟨_, rfl, .cons (first.set_left here value) rest⟩
    | none =>
      rw [here] at found
      obtain ⟨cs', changed, related⟩ := ih found
      exact ⟨s :: cs', by simp [changed], .cons first related⟩

/-- A variable may be given a value that is related to what its name means. -/
theorem assign?_of_lookup (h : c.Related R d) (found : d.lookup name = some b) (value : R a b) :
    ∃ c', c.assign? name a = some c' ∧ c'.Related R d := by
  unfold Context.lookup Context.scopes at found
  unfold Context.assign?
  rw [List.findSome?_cons] at found
  rw [h.innermost.contains name, h.parameters.contains name, Scope.contains, Scope.contains]
  cases here : d.innermost.get? name with
  | some b' =>
    rw [here] at found
    cases found
    exact ⟨_, rfl, h.parameters, h.innermost.set_left here value, h.enclosing⟩
  | none =>
    rw [here, List.findSome?_append] at found
    cases outside : d.enclosing.findSome? (·.get? name) with
    | some b' =>
      rw [outside] at found
      cases found
      obtain ⟨cs', changed, related⟩ := assignNearest_of_found h.enclosing value outside
      refine ⟨{ c with enclosing := cs' }, ?_, h.parameters, h.innermost, related⟩
      rw [changed]
      rfl
    | none =>
      have parameter : d.parameters.get? name = some b := by simpa [outside] using found
      refine ⟨{ c with parameters := c.parameters.set name a }, ?_, ?_⟩
      · obtain ⟨hc, -⟩ | ⟨cs', ds', -, hd, -⟩ := rel_iff.mp (assignNearest h.enclosing name value)
        · rw [hc, parameter]
          rfl
        · rw [assignNearest_eq_none outside] at hd
          cases hd
      · exact ⟨h.parameters.set_left parameter value, h.innermost, h.enclosing⟩

end Related

end Context

namespace CallStack

/-- The contexts of both stacks are related one by one. -/
structure Related (R : α → β → Prop) (s : CallStack α) (t : CallStack β) : Prop where
  global : s.global.Related R t.global
  calls : List.Forall₂ (Context.Related R) s.calls t.calls

namespace Related

variable {s : CallStack α} {t : CallStack β}

theorem empty : Related R .empty .empty := ⟨.ofParameters .empty, .nil⟩

theorem enter {parameters : Scope α} {parameters' : Scope β} (h : s.Related R t)
    (related : parameters.Related R parameters') : (s.enter parameters).Related R (t.enter parameters') :=
  ⟨h.global, .cons (.ofParameters related) h.calls⟩

theorem exit (h : s.Related R t) : s.exit.Related R t.exit := by
  obtain ⟨global, calls⟩ := h
  obtain ⟨sg, sc⟩ := s
  obtain ⟨tg, tc⟩ := t
  cases calls with
  | nil => exact ⟨global, .nil⟩
  | cons _ rest => exact ⟨global, rest⟩

theorem current (h : s.Related R t) : s.current.Related R t.current := by
  obtain ⟨global, calls⟩ := h
  obtain ⟨sg, sc⟩ := s
  obtain ⟨tg, tc⟩ := t
  cases calls with
  | nil => exact global
  | cons latest _ => exact latest

theorem modify (h : s.Related R t) (f : Context α → Context α) (g : Context β → Context β)
    (change : (f s.current).Related R (g t.current)) : (s.modify f).Related R (t.modify g) := by
  obtain ⟨global, calls⟩ := h
  obtain ⟨sg, sc⟩ := s
  obtain ⟨tg, tc⟩ := t
  cases calls with
  | nil => exact ⟨change, .nil⟩
  | cons _ rest => exact ⟨global, .cons change rest⟩

end Related

variable {s : CallStack α}

/-! ### Only the present context changes -/

@[simp] theorem modify_modify (f g : Context α → Context α) : (s.modify f).modify g = s.modify (g ∘ f) := by
  obtain ⟨global, _ | ⟨c, cs⟩⟩ := s <;> rfl

@[simp] theorem exit_modify_enter (parameters : Scope α) (f : Context α → Context α) :
    ((s.enter parameters).modify f).exit = s := rfl

/-- A change is known by what it makes of the present context. -/
theorem modify_congr {f g : Context α → Context α} (h : f s.current = g s.current) : s.modify f = s.modify g := by
  obtain ⟨global, _ | ⟨c, cs⟩⟩ := s
  · exact congrArg (CallStack.mk · []) h
  · exact congrArg (fun c => CallStack.mk global (c :: cs)) h

theorem modify_eq_const (f : Context α → Context α) : s.modify f = s.modify fun _ => f s.current :=
  modify_congr rfl

theorem modify_eq_self {f : Context α → Context α} (h : f s.current = s.current) : s.modify f = s := by
  obtain ⟨global, _ | ⟨c, cs⟩⟩ := s
  · exact congrArg (CallStack.mk · []) h
  · exact congrArg (fun c => CallStack.mk global (c :: cs)) h

end CallStack

end Mensura
