import Mensura.Proofs.Program.Wording
import Mensura.Proofs.Unit.Expansion

/-!
Working out units makes up no names. Main statement: if every name in a unit and in the definitions of a table is as
it should be, then so is every name in a product, a quotient, a power, a root and an expansion, and the name that an
error is about.
-/

namespace Mensura

/-- The name that an error is about. -/
def UnitError.name : UnitError → String
  | undeclared name | recursive name | powerOverflow name => name

variable {P : String → Prop}

/-- A unit is worked out with names as `P` says, also where it cannot be worked out. -/
abbrev UnitError.Spares {α : Type} (P : String → Prop) (good : α → Prop) (result : Except UnitError α) : Prop :=
  Ends (fun e => P e.name) good result

open UnitError (Spares)

namespace Factor

/-- Every name is as `P` says. -/
def AllNamed (P : String → Prop) (us : List Factor) : Prop := ∀ u ∈ us, P u.name

variable {us vs : List Factor} {combine : Int32 → Int32 → Option Int32}

theorem absorb_named {new : Factor} (here : P new.name) (all : AllNamed P us) :
    Spares P (AllNamed P) (absorb combine new us) := by
  induction us with
  | nil => exact List.forall_mem_singleton.mpr here
  | cons u us ih =>
    obtain ⟨first, rest⟩ := List.forall_mem_cons.mp all
    unfold absorb
    split
    · split
      · exact List.forall_mem_cons.mpr ⟨first, rest⟩
      · exact here
    · exact .map ((ih rest).mono fun vs kept => List.forall_mem_cons.mpr ⟨first, kept⟩)

theorem absorbAll_named (into : AllNamed P us) (new : AllNamed P vs) :
    Spares P (AllNamed P) (absorbAll combine us vs) := by
  let invariant (vs us : List Factor) : Prop := AllNamed P vs ∧ AllNamed P us
  have step (v : Factor) (vs us : List Factor) (holds : invariant (v :: vs) us) :
      Spares P (invariant vs) (absorb combine v us) := by
    obtain ⟨new, kept⟩ := holds
    obtain ⟨first, rest⟩ := List.forall_mem_cons.mp new
    exact (absorb_named first kept).mono fun us kept => ⟨rest, kept⟩
  exact (Ends.foldlM invariant step ⟨new, into⟩).mono fun us kept => kept.2

theorem withoutZeros_named (all : AllNamed P us) : AllNamed P (withoutZeros us) :=
  fun u mem => all u (List.mem_filter.mp mem).1

theorem normalize_named (all : AllNamed P us) : Spares P (AllNamed P) (normalize us) :=
  .map ((absorbAll_named nofun all).mono fun _ => withoutZeros_named)

theorem merge_named (left : AllNamed P us) (right : AllNamed P vs) : Spares P (AllNamed P) (merge combine us vs) := by
  refine .bind ((normalize_named left).mono fun l left => ?_)
  refine .bind ((normalize_named right).mono fun r right => ?_)
  exact .bind ((absorbAll_named left right).mono fun us => withoutZeros_named)

theorem mapPowers_named {f : Int32 → Option Int32} (all : AllNamed P us) :
    Spares P (AllNamed P) (mapPowers f us) := by
  apply Ends.mapM
  intro u mem
  split
  · exact all u mem
  · exact all u mem

end Factor

namespace UnitExpr

variable {u v : UnitExpr}

theorem multiply_named (left : u.Named P) (right : v.Named P) : Spares P (UnitExpr.Named P) (u.multiply v) :=
  .map (Factor.merge_named left right)

theorem divide_named (left : u.Named P) (right : v.Named P) : Spares P (UnitExpr.Named P) (u.divide v) := by
  refine .bind ((Factor.mapPowers_named right).mono fun inverse right => ?_)
  exact .bind ((Factor.merge_named left right).mono fun us kept => kept)

theorem scale_named (named : u.Named P) (n : Int32) : Spares P (UnitExpr.Named P) (u.scale n) := by
  refine .bind ((Factor.mapPowers_named named).mono fun scaled kept => ?_)
  exact .bind ((Factor.normalize_named kept).mono fun us kept => kept)

theorem halve?_named (named : u.Named P) (halved : u.halve? = some v) : v.Named P := by
  obtain ⟨us, normal, halved⟩ := Option.bind_eq_some_iff.mp halved
  obtain ⟨-, -, halved⟩ := Option.bind_eq_some_iff.mp halved
  obtain rfl := Option.some.inj halved
  have kept := Factor.normalize_named named
  rw [toOption_eq_some.mp normal] at kept
  intro w mem
  obtain ⟨u, among, rfl⟩ := List.mem_map.mp mem
  exact kept u among

end UnitExpr

/-- Every name in the definitions of a table is as `P` says. -/
def UnitTable.Named (P : String → Prop) (table : UnitTable) : Prop := ∀ entry ∈ table, entry.2.Named P

namespace UnitTable

variable {table : UnitTable} (known : table.Named P)
include known

theorem lookup_named {name : String} {definition : UnitExpr} (found : table.lookup name = some definition) :
    definition.Named P := by
  obtain ⟨before, after, split, -⟩ := List.lookup_eq_some_iff.mp found
  exact known (name, definition) (by rw [split]; simp)

/-- The definitions are entered one inside the other, no deeper than `depth`. -/
theorem baseFactors_named {depth : Nat} {path : List String} {power : Int32} {us : List Factor}
    (all : Factor.AllNamed P us) : Spares P (Factor.AllNamed P) (table.baseFactors depth path power us) := by
  induction depth using Nat.strongRecOn generalizing path power us with
  | ind depth ih =>
    rw [baseFactors_eq]
    have replaced : ∀ u ∈ us,
        Spares P (Factor.AllNamed P) (table.replaceFactor (table.entered depth path) power u) := by
      intro u mem
      have here := all u mem
      unfold replaceFactor
      split
      · exact here
      split
      · rename_i definition found
        unfold entered
        split
        · exact here
        split
        · exact here
        · exact ih _ (Nat.lt_succ_self _) (lookup_named known found)
      · split
        · exact List.forall_mem_singleton.mpr here
        · exact here
    apply Ends.map
    apply (Ends.mapM replaced).mono
    intro vss kept u mem
    obtain ⟨vs, among, mem⟩ := List.mem_flatten.mp mem
    exact kept vs among u mem

theorem expand_named {u : UnitExpr} (named : u.Named P) : Spares P (UnitExpr.Named P) (u.expand table) := by
  refine .bind ((baseFactors_named known named).mono fun us kept => ?_)
  exact .bind ((Factor.normalize_named kept).mono fun us kept => kept)

theorem equivalent_named {u v : UnitExpr} (left : u.Named P) (right : v.Named P) :
    Spares P (fun _ => True) (u.equivalent table v) := by
  refine .bind ((expand_named known left).mono fun x left => ?_)
  refine .bind ((expand_named known right).mono fun y right => ?_)
  refine .bind ((Factor.normalize_named left).mono fun us left => ?_)
  exact .bind ((Factor.normalize_named right).mono fun vs right => trivial)

end UnitTable

end Mensura
