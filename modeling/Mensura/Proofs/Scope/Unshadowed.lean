import Mathlib.Data.Set.Insert
import Mensura.Proofs.Evaluation.Frame
import Mensura.Proofs.Scope.Related

/-!
Scopes without shadowing: no name has a meaning in two scopes of a context. That stays so for as long as names are
declared only where they have no meaning yet. Main statement: in such a context it makes no difference whether an
assignment changes the nearest meaning of a name or every one.
-/

namespace Mensura

section
variable {α β : Type}

/-! ### Which names have a meaning -/

namespace Scope

variable {s : Scope α}

@[simp] theorem names_empty : (empty : Scope α).names = ∅ := by
  ext name
  simp [names, contains]

theorem contains_iff {name : String} : s.contains name = true ↔ name ∈ s.names := Iff.rfl

theorem get?_eq_none_iff {name : String} : s.get? name = none ↔ name ∉ s.names := by
  rw [← contains_iff, contains, Bool.not_eq_true, Option.isSome_eq_false_iff, Option.isNone_iff_eq_none]

/-- Changes a name that is there. -/
def update (s : Scope α) (name : String) (value : α) : Scope α :=
  if s.contains name then s.set name value else s

theorem update_of_mem {name : String} {value : α} (h : name ∈ s.names) : s.update name value = s.set name value :=
  if_pos h

theorem update_of_notMem {name : String} {value : α} (h : name ∉ s.names) : s.update name value = s := if_neg h

end Scope

namespace Context

variable {c : Context α} {d : Context β} {name : String}

/-- The names of each scope, from the nearest on. -/
def shape (c : Context α) : List (Set String) := c.scopes.map Scope.names

/-- No name has a meaning in two scopes. -/
def Unshadowed (c : Context α) : Prop := c.shape.Pairwise fun names others => ∀ name ∈ names, name ∉ others

theorem lookup_eq_none_iff : c.lookup name = none ↔ ∀ names ∈ c.shape, name ∉ names := by
  simp only [lookup, shape, List.findSome?_eq_none_iff, List.forall_mem_map, Scope.get?_eq_none_iff]

theorem declares_eq_false_iff : c.declares name = false ↔ c.lookup name = none := by
  rw [declares, Option.isSome_eq_false_iff, Option.isNone_iff_eq_none]

theorem shape_ofParameters (s : Scope α) : (ofParameters s).shape = [∅, s.names] := by
  simp [shape, scopes, ofParameters]

theorem shape_push : c.push.shape = ∅ :: c.shape := by
  simp [shape, scopes, push]

theorem shape_declare (value : α) : (c.declare name value).shape = insert name c.innermost.names :: c.shape.tail := by
  simp [shape, scopes, declare, Scope.names_set]

theorem Adds.shape {d : Context α} {added : Set String} (h : c.Adds added d) :
    d.shape = (c.innermost.names ∪ added) :: c.shape.tail := by
  simp [Context.shape, scopes, h.parameters, h.innermost, h.enclosing]

theorem Adds.shape_eq {d : Context α} (h : c.Adds ∅ d) : d.shape = c.shape := by
  rw [h.shape, Set.union_empty]
  rfl

/-! ### Contexts without shadowing -/

theorem Unshadowed.of_shape (h : c.Unshadowed) (same : d.shape = c.shape) : d.Unshadowed := by
  unfold Unshadowed
  rwa [same]

theorem Unshadowed.ofParameters (s : Scope α) : (ofParameters s).Unshadowed := by
  simp [Unshadowed, shape_ofParameters]

theorem Unshadowed.push (h : c.Unshadowed) : c.push.Unshadowed := by
  simpa [Unshadowed, shape_push] using h

theorem Unshadowed.declare (h : c.Unshadowed) (free : c.lookup name = none) (value : α) :
    (c.declare name value).Unshadowed := by
  rw [lookup_eq_none_iff] at free
  obtain ⟨apart, rest⟩ := List.pairwise_cons.mp h
  rw [Unshadowed, shape_declare]
  refine List.pairwise_cons.mpr ⟨fun names mem => ?_, rest⟩
  rintro m (rfl | known)
  · exact free names (List.mem_cons_of_mem _ mem)
  · exact apart names mem m known

end Context

/-! ### Assigning everywhere -/

namespace Context

variable {c : Context α} {name : String} {value : α} {ss : List (Scope α)}

/-- Changes every meaning of a name, if it has one. -/
def assignEverywhere? (c : Context α) (name : String) (value : α) : Option (Context α) :=
  if c.declares name then
    some ⟨c.parameters.update name value, c.innermost.update name value, c.enclosing.map (·.update name value)⟩
  else none

theorem map_update_of_notMem (h : ∀ s ∈ ss, name ∉ s.names) : ss.map (·.update name value) = ss :=
  (List.map_congr_left fun s mem => Scope.update_of_notMem (h s mem)).trans (List.map_id ss)

/-- Where no two scopes share a name, the nearest scope that has it is the only one. -/
theorem assignNearest_of_mem (apart : ss.Pairwise fun s t => ∀ m ∈ s.names, m ∉ t.names)
    (found : ∃ s ∈ ss, name ∈ s.names) : assignNearest name value ss = some (ss.map (·.update name value)) := by
  induction ss with
  | nil => simp at found
  | cons s ss ih =>
    obtain ⟨first, rest⟩ := List.pairwise_cons.mp apart
    unfold assignNearest
    by_cases here : name ∈ s.names
    · have elsewhere (t) (mem : t ∈ ss) : name ∉ t.names := first t mem name here
      rw [if_pos (Scope.contains_iff.mpr here), List.map_cons, Scope.update_of_mem here, map_update_of_notMem elsewhere]
    · have behind : ∃ t ∈ ss, name ∈ t.names := by simpa [here] using found
      rw [if_neg (mt Scope.contains_iff.mp here), ih rest behind, List.map_cons, Scope.update_of_notMem here]
      rfl

theorem assignNearest_of_notMem (missing : ∀ s ∈ ss, name ∉ s.names) : assignNearest name value ss = none := by
  refine assignNearest_eq_none (List.findSome?_eq_none_iff.mpr fun s mem => ?_)
  exact Scope.get?_eq_none_iff.mpr (missing s mem)

/-- In a context without shadowing the nearest meaning of a name is the only one. -/
theorem Unshadowed.assign?_eq (h : c.Unshadowed) : c.assign? name value = c.assignEverywhere? name value := by
  obtain ⟨parameters, innermost, enclosing⟩ := c
  have apart : (innermost :: (enclosing ++ [parameters])).Pairwise fun s t => ∀ m ∈ s.names, m ∉ t.names :=
    List.pairwise_map.mp h
  obtain ⟨inside, outside⟩ := List.pairwise_cons.mp apart
  obtain ⟨around, -, last⟩ := List.pairwise_append.mp outside
  have declared (s : Scope α) (mem : s ∈ innermost :: (enclosing ++ [parameters])) (found : name ∈ s.names) :
      (⟨parameters, innermost, enclosing⟩ : Context α).declares name = true := by
    rw [← Bool.not_eq_false, declares_eq_false_iff, lookup_eq_none_iff]
    exact fun missing => missing _ (List.mem_map_of_mem mem) found
  have parameter : parameters ∈ enclosing ++ [parameters] := by simp
  unfold assign? assignEverywhere?
  dsimp only
  by_cases first : name ∈ innermost.names
  · have elsewhere (s) (mem : s ∈ enclosing ++ [parameters]) : name ∉ s.names :=
      inside s mem name first
    rw [if_pos (Scope.contains_iff.mpr first), if_pos (declared innermost List.mem_cons_self first),
      Scope.update_of_mem first, Scope.update_of_notMem (elsewhere parameters parameter),
      map_update_of_notMem fun s mem => elsewhere s (List.mem_append_left _ mem)]
    rfl
  rw [if_neg (mt Scope.contains_iff.mp first), Scope.update_of_notMem first]
  by_cases second : ∃ s ∈ enclosing, name ∈ s.names
  · obtain ⟨s, mem, found⟩ := second
    have elsewhere : name ∉ parameters.names :=
      last s mem parameters List.mem_cons_self name found
    rw [assignNearest_of_mem around ⟨s, mem, found⟩,
      if_pos (declared s (List.mem_cons_of_mem _ (List.mem_append_left _ mem)) found),
      Scope.update_of_notMem elsewhere]
  have second (s) (mem : s ∈ enclosing) : name ∉ s.names := fun found => second ⟨s, mem, found⟩
  rw [assignNearest_of_notMem second, map_update_of_notMem second]
  by_cases third : name ∈ parameters.names
  · rw [if_pos (declared parameters (List.mem_cons_of_mem _ parameter) third), Scope.update_of_mem third]
    exact if_pos third
  · have free : (⟨parameters, innermost, enclosing⟩ : Context α).declares name = false := by
      rw [declares_eq_false_iff, lookup_eq_none_iff, shape, List.forall_mem_map]
      exact List.forall_mem_cons.mpr ⟨first, List.forall_mem_append.mpr ⟨second, by simpa using third⟩⟩
    rw [free]
    exact if_neg third

end Context

end

end Mensura
