/-!
Scopes. A scope gives names their meaning, at most one to each. Main statement: setting a name changes what
that name stands for and nothing else.
-/

namespace Mensura

/-- Names and what they stand for, in the order in which they were first set. -/
structure Scope (α : Type) where
  bindings : List (String × α)
  deriving DecidableEq, Repr

namespace Scope

variable {α : Type}

def empty : Scope α := ⟨[]⟩

def get? (s : Scope α) (name : String) : Option α := s.bindings.lookup name

def contains (s : Scope α) (name : String) : Bool := (s.get? name).isSome

/-- Gives a name a new meaning where it stands, or puts it at the end. -/
def replace (name : String) (value : α) : List (String × α) → List (String × α)
  | [] => [(name, value)]
  | (n, v) :: rest => if n = name then (name, value) :: rest else (n, v) :: replace name value rest

def set (s : Scope α) (name : String) (value : α) : Scope α := ⟨replace name value s.bindings⟩

/-- The pairs in order, so that the last of several with one name counts. -/
def ofList (bindings : List (String × α)) : Scope α :=
  bindings.foldl (fun s b => s.set b.1 b.2) empty

theorem lookup_replace (name m : String) (value : α) (bs : List (String × α)) :
    (replace name value bs).lookup m = if m = name then some value else bs.lookup m := by
  induction bs with
  | nil =>
    by_cases h : m = name
    · simp [replace, h]
    · simp [replace, List.lookup_cons, h, beq_eq_false_iff_ne.mpr h]
  | cons b rest ih =>
    obtain ⟨n, v⟩ := b
    by_cases h : m = n
    · subst h
      by_cases hm : m = name <;> simp [replace, hm]
    · have other := beq_eq_false_iff_ne.mpr h
      by_cases hn : n = name
      · subst hn
        simp [replace, List.lookup_cons, other, h]
      · simp [replace, List.lookup_cons, other, hn, ih]

@[simp] theorem get?_set (s : Scope α) (name m : String) (value : α) :
    (s.set name value).get? m = if m = name then some value else s.get? m :=
  lookup_replace name m value s.bindings

@[simp] theorem get?_empty (name : String) : (empty : Scope α).get? name = none := rfl

end Scope

end Mensura
