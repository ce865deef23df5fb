import Mensura.Proofs.Scope.Bracketing

/-!
Scopes that are kept in a list. A list can be without a scope, and then nothing could be declared. It never is, as the
last scope is not closed. Main statement: from a list with one scope on, every run of operations leads to lists with a
scope in them, which are the scopes of the contexts that the same run leads to.
-/

namespace Mensura

variable {α : Type}

/-- The parameters of a call and any number of scopes, of which the innermost comes first. -/
structure ListedContext (α : Type) where
  parameters : Scope α
  blocks : List (Scope α)

namespace ListedContext

def ofParameters (parameters : Scope α) : ListedContext α := ⟨parameters, [.empty]⟩

def push (c : ListedContext α) : ListedContext α := { c with blocks := .empty :: c.blocks }

/-- Closes the innermost scope where there is more than one. -/
def pop (c : ListedContext α) : ListedContext α :=
  if 1 < c.blocks.length then { c with blocks := c.blocks.tail } else c

def lookup (c : ListedContext α) (name : String) : Option α :=
  (c.blocks.findSome? (·.get? name)).or (c.parameters.get? name)

/-- Gives a name a meaning in the innermost scope, if there is one. -/
def declare (c : ListedContext α) (name : String) (value : α) : ListedContext α :=
  { c with blocks := c.blocks.modifyHead (·.set name value) }

/-- Changes the nearest meaning of a name, if it has one. -/
def assign? (c : ListedContext α) (name : String) (value : α) : Option (ListedContext α) :=
  match Context.assignNearest name value c.blocks with
  | some blocks => some { c with blocks }
  | none =>
    if c.parameters.contains name then some { c with parameters := c.parameters.set name value } else none

theorem length_pop {c : ListedContext α} (some : 1 ≤ c.blocks.length) :
    c.pop.blocks.length = max 1 (c.blocks.length - 1) := by
  unfold pop
  split
  · rw [List.length_tail]
    omega
  · omega

end ListedContext

namespace Context

variable (c : Context α) (name : String) (value : α)

/-- The scopes of a context as a list. -/
def listed (c : Context α) : ListedContext α := ⟨c.parameters, c.innermost :: c.enclosing⟩

theorem listed_pop : c.pop.listed = c.listed.pop := by
  obtain ⟨parameters, innermost, _ | ⟨outer, rest⟩⟩ := c
  · rfl
  · simp [pop, listed, ListedContext.pop]

theorem lookup_listed : c.listed.lookup name = c.lookup name := by
  have split : c.scopes = (c.innermost :: c.enclosing) ++ [c.parameters] := rfl
  rw [lookup, split, List.findSome?_append, List.findSome?_singleton]
  rfl

theorem listed_assign? : (c.assign? name value).map listed = c.listed.assign? name value := by
  rw [assign?, ListedContext.assign?, listed, assignNearest]
  by_cases first : c.innermost.contains name = true
  · rw [if_pos first, if_pos first]
    rfl
  · rw [if_neg first, if_neg first]
    cases assignNearest name value c.enclosing with
    | some enclosing => rfl
    | none =>
      by_cases last : c.parameters.contains name = true
      · simp [last, listed]
      · simp [last]

end Context

/-- A context outside of functions and those of the calls under way, with their scopes in lists. -/
structure ListedStack (α : Type) where
  global : ListedContext α
  calls : List (ListedContext α)

namespace ListedStack

def empty : ListedStack α := ⟨.ofParameters .empty, []⟩

def current (s : ListedStack α) : ListedContext α := s.calls.headD s.global

/-- Changes the context of the present place. -/
def modify (f : ListedContext α → ListedContext α) (s : ListedStack α) : ListedStack α :=
  match s.calls with
  | [] => { s with global := f s.global }
  | c :: cs => { s with calls := f c :: cs }

@[simp] theorem current_modify (f : ListedContext α → ListedContext α) (s : ListedStack α) :
    (s.modify f).current = f s.current := by
  obtain ⟨global, _ | ⟨c, cs⟩⟩ := s <;> rfl

theorem current_mem (s : ListedStack α) : s.current ∈ s.global :: s.calls := by
  obtain ⟨global, _ | ⟨c, cs⟩⟩ := s
  · exact List.mem_cons_self
  · exact List.mem_cons_of_mem _ List.mem_cons_self

def step (s : ListedStack α) : CallStack.Step α → ListedStack α
  | .declare name value => s.modify (·.declare name value)
  | .assign name value => s.modify fun c => (c.assign? name value).getD c
  | .push => s.modify .push
  | .pop => s.modify .pop
  | .enter parameters => { s with calls := .ofParameters parameters :: s.calls }
  | .exit => { s with calls := s.calls.tail }

def after (s : ListedStack α) (steps : List (CallStack.Step α)) : ListedStack α := steps.foldl step s

end ListedStack

namespace CallStack

/-- The scopes of all contexts as lists. -/
def listed (s : CallStack α) : ListedStack α := ⟨s.global.listed, s.calls.map Context.listed⟩

theorem length_blocks_listed (s : CallStack α) {c : ListedContext α} (mem : c ∈ s.listed.global :: s.listed.calls) :
    1 ≤ c.blocks.length := by
  have contexts : s.listed.global :: s.listed.calls = (s.global :: s.calls).map Context.listed := rfl
  rw [contexts] at mem
  obtain ⟨d, -, rfl⟩ := List.mem_map.mp mem
  exact Nat.succ_pos _

theorem current_listed (s : CallStack α) : s.listed.current = s.current.listed := by
  obtain ⟨global, _ | ⟨c, cs⟩⟩ := s <;> rfl

theorem listed_modify {f : Context α → Context α} {g : ListedContext α → ListedContext α}
    (same : ∀ c, (f c).listed = g c.listed) (s : CallStack α) : (s.modify f).listed = s.listed.modify g := by
  obtain ⟨global, _ | ⟨c, cs⟩⟩ := s <;> simp [modify, listed, ListedStack.modify, same]

/-- One operation on the lists is the same operation on the contexts. -/
theorem listed_step (s : CallStack α) (operation : Step α) : (s.step operation).listed = s.listed.step operation := by
  cases operation with
  | declare name value =>
    rw [step, ListedStack.step]
    exact listed_modify (fun _ => rfl) s
  | assign name value =>
    rw [step, ListedStack.step]
    apply listed_modify
    intro c
    rw [Context.assign, ← Context.listed_assign?]
    cases c.assign? name value <;> rfl
  | push =>
    rw [step, ListedStack.step]
    exact listed_modify (fun _ => rfl) s
  | pop =>
    rw [step, ListedStack.step]
    exact listed_modify Context.listed_pop s
  | enter parameters => rfl
  | exit => rw [step, exit, listed, ListedStack.step, listed, List.map_tail]

theorem listed_after (s : CallStack α) (history : List (Step α)) :
    (s.after history).listed = s.listed.after history := by
  induction history generalizing s with
  | nil => rfl
  | cons operation history ih =>
    rw [after_cons, ih, listed_step]
    rfl

end CallStack

namespace ListedStack

open CallStack (Step)

/-- Whatever operations have been made, no list is without a scope, as closing takes one away from two or more only. So
a name that is declared has its value. The lists are those of the contexts that the same operations lead to. -/
theorem scope_kept (history : List (Step α)) :
    let s := (empty : ListedStack α).after history
    s = (CallStack.empty.after history).listed ∧ (∀ c ∈ s.global :: s.calls, 1 ≤ c.blocks.length) ∧
      (s.step .pop).current.blocks.length = max 1 (s.current.blocks.length - 1) ∧
      ∀ name value, (s.step (.declare name value)).current.lookup name = some value := by
  intro s
  have same : s = (CallStack.empty.after history).listed := (CallStack.listed_after .empty history).symm
  have kept : ∀ c ∈ s.global :: s.calls, 1 ≤ c.blocks.length := by
    rw [same]
    exact fun c => CallStack.length_blocks_listed _
  constructor
  · exact same
  constructor
  · exact kept
  constructor
  · rw [step, current_modify]
    exact ListedContext.length_pop (kept _ s.current_mem)
  · intro name value
    rw [same, ← CallStack.listed_step, CallStack.current_listed, Context.lookup_listed, CallStack.current_step_declare,
      Context.lookup_declare, if_pos rfl]

end ListedStack

end Mensura
