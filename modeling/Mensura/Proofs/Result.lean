import Mathlib.Data.List.Forall2

/-!
Computations that end with a value or with an error: what has gone before when one ends in the one way or the
other. A sequence ends well only if all of its steps do, and its error is the error of one of them.
-/

namespace Mensura

section
variable {ε α β : Type}

theorem bind_eq_ok {x : Except ε α} {f : α → Except ε β} {b : β} :
    (x >>= f) = .ok b ↔ ∃ a, x = .ok a ∧ f a = .ok b := by
  cases x <;> simp [bind, Except.bind]

theorem bind_eq_error {x : Except ε α} {f : α → Except ε β} {e : ε} :
    (x >>= f) = .error e ↔ x = .error e ∨ ∃ a, x = .ok a ∧ f a = .error e := by
  cases x <;> simp [bind, Except.bind]

theorem map_eq_ok {x : Except ε α} {f : α → β} {b : β} : x.map f = .ok b ↔ ∃ a, x = .ok a ∧ f a = b := by
  cases x <;> simp [Except.map]

theorem map_eq_error {x : Except ε α} {f : α → β} {e : ε} : x.map f = .error e ↔ x = .error e := by
  cases x <;> simp [Except.map]

theorem mapError_eq_ok {δ : Type} {x : Except ε α} {f : ε → δ} {a : α} : x.mapError f = .ok a ↔ x = .ok a := by
  cases x <;> simp [Except.mapError]

theorem mapError_eq_error {δ : Type} {x : Except ε α} {f : ε → δ} {d : δ} :
    x.mapError f = .error d ↔ ∃ e, x = .error e ∧ f e = d := by
  cases x <;> simp [Except.mapError]

theorem mapError_id (x : Except ε α) : x.mapError id = x := by
  cases x <;> rfl

theorem mapError_bind {δ : Type} {x : Except ε α} {f : α → Except ε β} {g : ε → δ} :
    (x >>= f).mapError g = x.mapError g >>= fun a => (f a).mapError g := by
  cases x <;> rfl

theorem mapError_map {δ : Type} {x : Except ε α} {f : α → β} {g : ε → δ} :
    (x.map f).mapError g = (x.mapError g).map f := by
  cases x <;> rfl

/-- Two folds in step: the elements of the one list are made from those of the other. -/
theorem foldlM_map_mapError {δ γ : Type} {f : β → α → Except ε β} {g : β → γ → Except δ β} {k : α → γ}
    {forget : ε → δ} (step : ∀ b a, g b (k a) = (f b a).mapError forget) (as : List α) (b : β) :
    (as.map k).foldlM g b = (as.foldlM f b).mapError forget := by
  induction as generalizing b with
  | nil => rfl
  | cons a as ih =>
    rw [List.map_cons, List.foldlM_cons, List.foldlM_cons, mapError_bind, step]
    congr 1
    funext b
    exact ih b

theorem toOption_eq_some {x : Except ε α} {a : α} : x.toOption = some a ↔ x = .ok a := by
  cases x <;> simp [Except.toOption]

theorem mapM_eq_ok {f : α → Except ε β} {as : List α} {bs : List β} (h : as.mapM f = .ok bs) :
    List.Forall₂ (fun a b => f a = .ok b) as bs := by
  induction as generalizing bs with
  | nil => cases h; exact .nil
  | cons a as ih =>
    rw [List.mapM_cons] at h
    obtain ⟨b, hb, h⟩ := bind_eq_ok.mp h
    obtain ⟨rest, hrest, h⟩ := bind_eq_ok.mp h
    cases h
    exact .cons hb (ih hrest)

theorem mapM_eq_error {f : α → Except ε β} {as : List α} {e : ε} (h : as.mapM f = .error e) :
    ∃ a ∈ as, f a = .error e := by
  induction as with
  | nil => cases h
  | cons a as ih =>
    rw [List.mapM_cons] at h
    obtain h | ⟨b, -, h⟩ := bind_eq_error.mp h
    · exact ⟨a, List.mem_cons_self, h⟩
    · obtain h | ⟨rest, -, h⟩ := bind_eq_error.mp h
      · obtain ⟨c, hc, h⟩ := ih h
        exact ⟨c, List.mem_cons_of_mem a hc, h⟩
      · cases h

/-- Lists that are related one by one: every element on the right has one on the left. -/
theorem exists_of_mem_right {R : α → β → Prop} {as : List α} {bs : List β} {b : β} (h : List.Forall₂ R as bs)
    (mem : b ∈ bs) : ∃ a ∈ as, R a b := by
  induction h with
  | nil => cases mem
  | cons first _ ih =>
    cases mem with
    | head => exact ⟨_, List.mem_cons_self, first⟩
    | tail _ mem =>
      obtain ⟨a, ha, related⟩ := ih mem
      exact ⟨a, List.mem_cons_of_mem _ ha, related⟩

/-! ### What a computation guarantees -/

/-- The value is as `good` says, or the error as `allowed` says. -/
def Ends (allowed : ε → Prop) (good : α → Prop) : Except ε α → Prop
  | .ok a => good a
  | .error e => allowed e

variable {allowed : ε → Prop}

theorem Ends.bind {x : Except ε α} {f : α → Except ε β} {good : β → Prop}
    (h : Ends allowed (fun a => Ends allowed good (f a)) x) : Ends allowed good (x >>= f) := by
  cases x <;> exact h

theorem Ends.mono {x : Except ε α} {good better : α → Prop} (h : Ends allowed good x)
    (implies : ∀ a, good a → better a) : Ends allowed better x := by
  cases x with
  | ok a => exact implies a h
  | error e => exact h

theorem Ends.map {x : Except ε α} {f : α → β} {good : β → Prop} (h : Ends allowed (fun a => good (f a)) x) :
    Ends allowed good (x.map f) := by
  cases x <;> exact h

/-- What all elements lead to. -/
theorem Ends.mapM {f : α → Except ε β} {good : β → Prop} {as : List α} (each : ∀ a ∈ as, Ends allowed good (f a)) :
    Ends allowed (fun bs => ∀ b ∈ bs, good b) (as.mapM f) := by
  induction as with
  | nil => exact nofun
  | cons a as ih =>
    obtain ⟨first, rest⟩ := List.forall_mem_cons.mp each
    rw [List.mapM_cons]
    refine .bind (first.mono fun b holds => ?_)
    exact .bind ((ih rest).mono fun bs all => List.forall_mem_cons.mpr ⟨holds, all⟩)

/-- A fold keeps an invariant over the elements that are left. -/
theorem Ends.foldlM {f : β → α → Except ε β} (invariant : List α → β → Prop)
    (step : ∀ a as b, invariant (a :: as) b → Ends allowed (invariant as) (f b a)) {as : List α} {b : β}
    (start : invariant as b) : Ends allowed (invariant []) (as.foldlM f b) := by
  induction as generalizing b with
  | nil => exact start
  | cons a as ih =>
    rw [List.foldlM_cons]
    exact .bind ((step a as b start).mono fun _ => ih)

variable {σ : Type}

/-- From the state `s` a computation with a state ends with a value and a state as `good` says, or with an
error as `allowed` says. -/
def Within (allowed : ε → Prop) (x : ExceptT ε (StateM σ) α) (s : σ) (good : α → σ → Prop) : Prop :=
  match x.run.run s with
  | (.ok a, t) => good a t
  | (.error e, _) => allowed e

theorem run_bind (x : ExceptT ε (StateM σ) α) (f : α → ExceptT ε (StateM σ) β) (s : σ) :
    (x >>= f).run.run s =
      match x.run.run s with
      | (.ok a, t) => (f a).run.run t
      | (.error e, t) => (.error e, t) := by
  rw [ExceptT.run_bind, StateT.run_bind]
  rcases x.run.run s with ⟨_ | _, t⟩ <;> rfl

namespace Within

variable {x : ExceptT ε (StateM σ) α} {f : α → ExceptT ε (StateM σ) β} {s : σ}

theorem bind {good : β → σ → Prop} (h : Within allowed x s fun a t => Within allowed (f a) t good) :
    Within allowed (x >>= f) s good := by
  unfold Within at h ⊢
  rw [run_bind]
  generalize x.run.run s = r at h ⊢
  obtain ⟨_ | _, t⟩ := r <;> exact h

theorem mono {good better : α → σ → Prop} (h : Within allowed x s good)
    (implies : ∀ a t, good a t → better a t) : Within allowed x s better := by
  unfold Within at h ⊢
  generalize x.run.run s = r at h ⊢
  obtain ⟨_ | _, t⟩ := r
  · exact h
  · exact implies _ _ h

/-- More errors may be allowed. -/
theorem allow {good : α → σ → Prop} {more : ε → Prop} (h : Within allowed x s good)
    (implies : ∀ e, allowed e → more e) : Within more x s good := by
  unfold Within at h ⊢
  generalize x.run.run s = r at h ⊢
  obtain ⟨e | _, t⟩ := r
  · exact implies e h
  · exact h

/-- First one computation, then another from where the first one has led. -/
theorem seq {between : α → σ → Prop} {good : β → σ → Prop} (first : Within allowed x s between)
    (next : ∀ a t, between a t → Within allowed (f a) t good) : Within allowed (x >>= f) s good :=
  bind (first.mono next)

/-- A computation that is run from elsewhere, and after which the state is put in order. -/
theorem around {s' : σ} {leave : σ → σ} {y : ExceptT ε (StateM σ) α} {good : α → σ → Prop}
    (run : x.run.run s = (y.run.run s').map id leave)
    (h : Within allowed y s' fun a t => good a (leave t)) : Within allowed x s good := by
  unfold Within at h ⊢
  rw [run]
  generalize y.run.run s' = r at h
  obtain ⟨_ | _, t⟩ := r <;> exact h

/-- When every error is allowed, a computation may end anyhow. -/
theorem anyhow : Within (fun _ => True) x s fun _ _ => True := by
  unfold Within
  generalize x.run.run s = r
  obtain ⟨_ | _, _⟩ := r <;> trivial

/-- A loop over a list keeps an invariant and establishes something for every element. -/
theorem forM {f : α → ExceptT ε (StateM σ) PUnit} {as : List α} (invariant : σ → Prop) (done : α → Prop)
    (step : ∀ a ∈ as, ∀ s, invariant s → Within allowed (f a) s fun _ t => invariant t ∧ done a)
    (start : invariant s) : Within allowed (as.forM f) s fun _ t => invariant t ∧ ∀ a ∈ as, done a := by
  induction as generalizing s with
  | nil => exact ⟨start, nofun⟩
  | cons a as ih =>
    apply (step a List.mem_cons_self s start).seq
    rintro _ t ⟨kept, first⟩
    apply (ih (fun b hb => step b (List.mem_cons_of_mem a hb)) kept).mono
    rintro _ u ⟨kept, rest⟩
    exact ⟨kept, List.forall_mem_cons.mpr ⟨first, rest⟩⟩

/-- A loop whose steps do not depend on the state. -/
theorem forEach {f : α → ExceptT ε (StateM σ) PUnit} {as : List α} {done : α → Prop}
    (step : ∀ a ∈ as, ∀ s, Within allowed (f a) s fun _ _ => done a) :
    Within allowed (as.forM f) s fun _ _ => ∀ a ∈ as, done a := by
  have whole : Within allowed (as.forM f) s fun _ _ => True ∧ ∀ a ∈ as, done a := by
    refine forM (fun _ => True) done ?_ trivial
    intro a mem s _
    exact (step a mem s).mono fun _ _ first => ⟨trivial, first⟩
  exact whole.mono fun _ _ h => h.2

end Within

/-! ### Two computations in step -/

variable {δ τ : Type}

/-- From related states both computations come to the same value or, but for what `forget` drops, to the same
error, and to related states. -/
def Echoes (related : σ → τ → Prop) (forget : ε → δ) (x : ExceptT ε (StateM σ) α) (y : ExceptT δ (StateM τ) α) :
    Prop :=
  ∀ s t, related s t →
    (y.run.run t).1 = (x.run.run s).1.mapError forget ∧ related (x.run.run s).2 (y.run.run t).2

namespace Echoes

variable {related : σ → τ → Prop} {forget : ε → δ} {x : ExceptT ε (StateM σ) α} {y : ExceptT δ (StateM τ) α}

theorem pure (a : α) : Echoes related forget (Pure.pure a) (Pure.pure a) := fun _ _ h => ⟨rfl, h⟩

theorem throw (e : ε) :
    Echoes related forget (throwThe ε e : ExceptT ε (StateM σ) α) (throwThe δ (forget e)) := fun _ _ h => ⟨rfl, h⟩

theorem bind {f : α → ExceptT ε (StateM σ) β} {g : α → ExceptT δ (StateM τ) β} (first : Echoes related forget x y)
    (rest : ∀ a, Echoes related forget (f a) (g a)) : Echoes related forget (x >>= f) (y >>= g) := by
  intro s t h
  obtain ⟨same, h⟩ := first s t h
  rw [run_bind, run_bind]
  generalize x.run.run s = r at same h ⊢
  generalize y.run.run t = q at same h ⊢
  obtain ⟨e | a, s⟩ := r
  · obtain ⟨_, t⟩ := q
    cases same
    exact ⟨rfl, h⟩
  · obtain ⟨_, t⟩ := q
    cases same
    exact rest a s t h

theorem branch {c : ExceptT ε (StateM σ) Bool} {d : ExceptT δ (StateM τ) Bool} {x' : ExceptT ε (StateM σ) α}
    {y' : ExceptT δ (StateM τ) α} (condition : Echoes related forget c d) (yes : Echoes related forget x y)
    (no : Echoes related forget x' y') :
    Echoes related forget (do if ← c then x else x') (do if ← d then y else y') := by
  apply bind condition
  intro b
  cases b with
  | true => exact yes
  | false => exact no

/-- What is done next may depend on the state. -/
theorem get {f : σ → ExceptT ε (StateM σ) α} {g : τ → ExceptT δ (StateM τ) α}
    (h : ∀ s t, related s t → Echoes related forget (f s) (g t)) :
    Echoes related forget (MonadState.get >>= f) (MonadState.get >>= g) :=
  fun s t holds => h s t holds s t holds

/-- Both computations may be started from elsewhere, where the states are related in another way, and the states may be
put in order afterwards. -/
theorem around {inner : σ → τ → Prop} {x' : ExceptT ε (StateM σ) α} {y' : ExceptT δ (StateM τ) α} {enter leave : σ → σ}
    {enter' leave' : τ → τ} (run : ∀ s, x'.run.run s = (x.run.run (enter s)).map id leave)
    (run' : ∀ t, y'.run.run t = (y.run.run (enter' t)).map id leave') (h : Echoes inner forget x y)
    (entering : ∀ s t, related s t → inner (enter s) (enter' t))
    (leaving : ∀ s t, inner s t → related (leave s) (leave' t)) : Echoes related forget x' y' := by
  intro s t holds
  obtain ⟨same, holds⟩ := h _ _ (entering s t holds)
  rw [run, run']
  exact ⟨same, leaving _ _ holds⟩

end Echoes

end

end Mensura
