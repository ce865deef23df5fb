import Mensura.Scope.Basic

/-!
The scopes that are open at a moment. A context holds the parameters of a call and the scopes of the blocks
around the present place; a call stack holds the context of the statements outside of functions and the
contexts of the calls under way. A name means what the nearest scope says, and the parameters come last.
A context is never without a scope, so that something can always be declared. This is part of the type: the
innermost scope stands apart from those around it, and closing it takes one of these in its place, or leaves it
where it is if there is none. What is done to a list of scopes that is guarded in the same way comes to this,
see `ListedStack.scope_kept`.
-/

namespace Mensura

/-- The parameters of a call and its open scopes, of which the innermost comes first. There is always one. -/
structure Context (α : Type) where
  parameters : Scope α
  innermost : Scope α
  enclosing : List (Scope α)
  deriving DecidableEq, Repr

namespace Context

variable {α : Type}

/-- A context without blocks. -/
def ofParameters (parameters : Scope α) : Context α := ⟨parameters, .empty, []⟩

def push (c : Context α) : Context α :=
  { c with innermost := .empty, enclosing := c.innermost :: c.enclosing }

/-- Closes the innermost scope, unless it is the only one. -/
def pop (c : Context α) : Context α :=
  match c.enclosing with
  | [] => c
  | s :: ss => { c with innermost := s, enclosing := ss }

/-- All scopes from the nearest on, with the parameters at the end. -/
def scopes (c : Context α) : List (Scope α) := c.innermost :: (c.enclosing ++ [c.parameters])

def lookup (c : Context α) (name : String) : Option α := c.scopes.findSome? (·.get? name)

def declares (c : Context α) (name : String) : Bool := (c.lookup name).isSome

/-- Gives a name a meaning in the innermost scope. -/
def declare (c : Context α) (name : String) (value : α) : Context α :=
  { c with innermost := c.innermost.set name value }

/-- Changes the name in the first of the scopes that has it. -/
def assignNearest (name : String) (value : α) : List (Scope α) → Option (List (Scope α))
  | [] => none
  | s :: ss =>
    if s.contains name then some (s.set name value :: ss)
    else (assignNearest name value ss).map (s :: ·)

/-- Changes the nearest meaning of a name, if it has one. -/
def assign? (c : Context α) (name : String) (value : α) : Option (Context α) :=
  if c.innermost.contains name then some (c.declare name value)
  else
    match assignNearest name value c.enclosing with
    | some enclosing => some { c with enclosing }
    | none =>
      if c.parameters.contains name then some { c with parameters := c.parameters.set name value }
      else none

theorem lookup_declare (c : Context α) (name m : String) (value : α) :
    (c.declare name value).lookup m = if m = name then some value else c.lookup m := by
  by_cases h : m = name <;> simp [lookup, scopes, declare, List.findSome?_cons, h]

end Context

/-- The context outside of functions, and those of the calls under way, of which the latest comes first. -/
structure CallStack (α : Type) where
  global : Context α
  calls : List (Context α)
  deriving DecidableEq, Repr

namespace CallStack

variable {α : Type}

def empty : CallStack α := ⟨.ofParameters .empty, []⟩

def enter (s : CallStack α) (parameters : Scope α) : CallStack α :=
  { s with calls := .ofParameters parameters :: s.calls }

/-- Ends the latest call, if there is one. -/
def exit (s : CallStack α) : CallStack α := { s with calls := s.calls.tail }

/-- The context of the present place. -/
def current (s : CallStack α) : Context α := s.calls.headD s.global

/-- Changes the context of the present place. -/
def modify (f : Context α → Context α) (s : CallStack α) : CallStack α :=
  match s.calls with
  | [] => { s with global := f s.global }
  | c :: cs => { s with calls := f c :: cs }

@[simp] theorem current_modify (f : Context α → Context α) (s : CallStack α) :
    (s.modify f).current = f s.current := by
  obtain ⟨global, _ | ⟨c, cs⟩⟩ := s <;> rfl

end CallStack

end Mensura
