import Mensura.Proofs.Scope.Related

/-!
Further scopes inside a context. A name is looked for in them first, and then in the context that they were opened in.
Main statement: an assignment changes the nearest meaning of its name and no other name, if the name has a meaning, and
it goes through to the context below just where none of the further scopes has the name.
-/

namespace Mensura.Context

variable {α : Type} {c d : Context α} {name m : String} {value : α} {ss ts : List (Scope α)}

/-- The context with further scopes opened in it, of which the innermost comes first. -/
def under (c : Context α) : List (Scope α) → Context α
  | [] => c
  | s :: ss => ⟨c.parameters, s, ss ++ c.innermost :: c.enclosing⟩

theorem push_under (c : Context α) (ss : List (Scope α)) : (c.under ss).push = c.under (.empty :: ss) := by
  cases ss <;> rfl

theorem pop_under (c : Context α) (s : Scope α) (ss : List (Scope α)) : (c.under (s :: ss)).pop = c.under ss := by
  cases ss <;> rfl

theorem declare_under (c : Context α) (s : Scope α) (ss : List (Scope α)) :
    (c.under (s :: ss)).declare name value = c.under (s.set name value :: ss) := rfl

theorem scopes_under (c : Context α) (ss : List (Scope α)) : (c.under ss).scopes = ss ++ c.scopes := by
  cases ss <;> simp [under, scopes]

theorem lookup_under (c : Context α) (ss : List (Scope α)) :
    (c.under ss).lookup name = (ss.findSome? (·.get? name)).or (c.lookup name) := by
  rw [lookup, scopes_under, List.findSome?_append]
  rfl

theorem lookup_push (c : Context α) : c.push.lookup name = c.lookup name :=
  lookup_under c [.empty]

/-! ### Assignments -/

theorem assignNearest_append (ss ts : List (Scope α)) :
    assignNearest name value (ss ++ ts) =
      ((assignNearest name value ss).map (· ++ ts)).or ((assignNearest name value ts).map (ss ++ ·)) := by
  induction ss with
  | nil => cases h : assignNearest name value ts <;> simp [assignNearest, h]
  | cons s ss ih =>
    by_cases here : s.contains name = true
    · simp [assignNearest, here]
    · simp only [List.cons_append, assignNearest, if_neg here, ih]
      cases assignNearest name value ss <;> cases assignNearest name value ts <;> rfl

/-- To assign is to change the first of all the scopes that has the name, the parameters being the last of them. -/
theorem map_scopes_assign? (c : Context α) : (c.assign? name value).map scopes = assignNearest name value c.scopes := by
  obtain ⟨parameters, innermost, enclosing⟩ := c
  simp only [scopes, assignNearest, assignNearest_append, assign?]
  by_cases first : innermost.contains name = true
  · simp [first, declare, scopes]
  · rw [if_neg first, if_neg first]
    cases assignNearest name value enclosing with
    | some ts => rfl
    | none =>
      by_cases last : parameters.contains name = true <;> simp [last, scopes]

theorem eq_of_scopes (same : c.scopes = d.scopes) : c = d := by
  obtain ⟨cp, ci, ce⟩ := c
  obtain ⟨dp, di, de⟩ := d
  obtain ⟨rfl, rest⟩ := List.cons.inj same
  obtain ⟨rfl, last⟩ := List.append_inj' rest rfl
  cases last
  rfl

theorem assignNearest_eq_none_iff : assignNearest name value ss = none ↔ ss.findSome? (·.get? name) = none := by
  refine ⟨fun h => ?_, assignNearest_eq_none⟩
  induction ss with
  | nil => rfl
  | cons s ss ih =>
    rw [assignNearest, Scope.contains] at h
    rw [List.findSome?_cons]
    cases here : s.get? name with
    | some v => simp [here] at h
    | none => exact ih (by simpa [here] using h)

theorem findSome?_assignNearest (h : assignNearest name value ss = some ts) :
    ts.findSome? (·.get? m) = if m = name then some value else ss.findSome? (·.get? m) := by
  induction ss generalizing ts with
  | nil => cases h
  | cons s ss ih =>
    rw [assignNearest] at h
    split at h
    · cases h
      by_cases same : m = name <;> simp [List.findSome?_cons, same]
    · rename_i absent
      obtain ⟨rest, changed, rfl⟩ := Option.map_eq_some_iff.mp h
      rw [List.findSome?_cons, List.findSome?_cons, ih changed]
      by_cases same : m = name
      · have free : s.get? name = none := by simpa [Scope.contains] using absent
        simp [same, free]
      · simp [same]

/-- The further scopes stay as many as they were. -/
theorem length_assignNearest (h : assignNearest name value ss = some ts) : ts.length = ss.length := by
  induction ss generalizing ts with
  | nil => cases h
  | cons s ss ih =>
    rw [assignNearest] at h
    split at h
    · cases h
      rfl
    · obtain ⟨rest, changed, rfl⟩ := Option.map_eq_some_iff.mp h
      rw [List.length_cons, ih changed, List.length_cons]

/-- A name can be assigned just if it has a meaning. -/
theorem isSome_assign? (c : Context α) : (c.assign? name value).isSome = c.declares name := by
  rw [← Option.isSome_map (f := scopes), map_scopes_assign?, declares, lookup, Bool.eq_iff_iff,
    ← Option.ne_none_iff_isSome, ← Option.ne_none_iff_isSome]
  exact not_congr assignNearest_eq_none_iff

theorem lookup_of_assign? (h : c.assign? name value = some d) :
    d.lookup m = if m = name then some value else c.lookup m := by
  have changed : assignNearest name value c.scopes = some d.scopes := by rw [← map_scopes_assign?, h]; rfl
  exact findSome?_assignNearest changed

theorem assign?_under (c : Context α) (ss : List (Scope α)) :
    (c.under ss).assign? name value =
      ((assignNearest name value ss).map c.under).or ((c.assign? name value).map (·.under ss)) := by
  apply Option.map_injective fun _ _ => eq_of_scopes
  rw [map_scopes_assign?, scopes_under, assignNearest_append, ← map_scopes_assign?]
  cases assignNearest name value ss <;> cases c.assign? name value <;> simp [scopes_under]

theorem assign?_push (c : Context α) : c.push.assign? name value = (c.assign? name value).map push :=
  assign?_under c [.empty]

end Mensura.Context
