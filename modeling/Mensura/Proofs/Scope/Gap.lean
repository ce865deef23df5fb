import Mensura.Proofs.Scope.Under

/-!
Contexts that differ in an empty scope. Every name means the same in both of them. Main statement: they go on to
differ in that scope only, whatever is declared, assigned, opened and closed in the scopes that are opened in it.
-/

namespace Mensura

namespace Context

variable {α : Type}

/-- In two contexts that are related at `k`, with `k` scopes that can be closed in them, names mean the same, and what
is done in both of them keeps them related. -/
structure Steady (N : Nat → Context α → Context α → Prop) : Prop where
  lookup {k : Nat} {c d : Context α} (near : N k c d) (name : String) : d.lookup name = c.lookup name
  push {k : Nat} {c d : Context α} (near : N k c d) : N (k + 1) c.push d.push
  pop {k : Nat} {c d : Context α} (near : N (k + 1) c d) : N k c.pop d.pop
  declare {k : Nat} {c d : Context α} (near : N (k + 1) c d) (name : String) (value : α) :
    N (k + 1) (c.declare name value) (d.declare name value)
  assign {k : Nat} {c d : Context α} (near : N k c d) (name : String) (value : α) :
    Option.Rel (N k) (c.assign? name value) (d.assign? name value)

theorem Steady.eq : Steady fun _ => @Eq (Context α) where
  lookup near name := by rw [near]
  push near := by rw [near]
  pop near := by rw [near]
  declare near name value := by rw [near]
  assign near name value := by
    rw [near]
    rename_i d
    cases d.assign? name value with
    | none => exact .none
    | some _ => exact .some rfl

/-- The context `d` has one scope more than `c`, which is empty, and in which `k` scopes have been opened. -/
def Gap (k : Nat) (c d : Context α) : Prop :=
  ∃ (base : Context α) (ss : List (Scope α)), ss.length = k ∧ c = base.under ss ∧ d = base.push.under ss

namespace Gap

variable {c d : Context α}

theorem zero_iff : Gap 0 c d ↔ d = c.push := by
  constructor
  · rintro ⟨base, ss, none, rfl, rfl⟩
    rw [List.length_eq_zero_iff.mp none]
    rfl
  · rintro rfl
    exact ⟨c, [], rfl, rfl, rfl⟩

theorem steady : Steady (@Gap α) where
  lookup := by
    rintro _ _ _ ⟨base, ss, -, rfl, rfl⟩ name
    rw [lookup_under, lookup_under, lookup_push]
  push := by
    rintro _ _ _ ⟨base, ss, rfl, rfl, rfl⟩
    exact ⟨base, .empty :: ss, rfl, push_under _ _, push_under _ _⟩
  pop := by
    rintro k _ _ ⟨base, ss, opened, rfl, rfl⟩
    cases ss with
    | nil => cases opened
    | cons s ss => exact ⟨base, ss, Nat.succ.inj opened, pop_under _ _ _, pop_under _ _ _⟩
  declare := by
    rintro k _ _ ⟨base, ss, opened, rfl, rfl⟩ name value
    cases ss with
    | nil => cases opened
    | cons s ss => exact ⟨base, s.set name value :: ss, opened, declare_under _ _ _, declare_under _ _ _⟩
  assign := by
    rintro k _ _ ⟨base, ss, opened, rfl, rfl⟩ name value
    rw [assign?_under, assign?_under, assign?_push]
    cases inside : assignNearest name value ss with
    | some ts => exact .some ⟨base, ts, (length_assignNearest inside).trans opened, rfl, rfl⟩
    | none =>
      cases base.assign? name value with
      | none => exact .none
      | some changed => exact .some ⟨changed, ss, opened, rfl, rfl⟩

end Gap

end Context

/-- What is done to the present contexts of two stacks relates them as it does when they stand alone. -/
theorem CallStack.current_modify_related {α : Type} {N M : Context α → Context α → Prop} {s t : CallStack α}
    {f g : Context α → Context α} (near : N s.current t.current) (change : ∀ {c d}, N c d → M (f c) (g d)) :
    M (s.modify f).current (t.modify g).current := by
  rw [current_modify, current_modify]
  exact change near

end Mensura
