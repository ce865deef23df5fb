import Mathlib.Data.List.Induction
import Mensura.Proofs.Unit.Laws

/-!
Normal forms to the last detail: which names they have and in which order, and when there is none. The powers are
added from left to right, and every sum on the way has to fit. Main statement: a normal form has just the names whose
powers do not cancel, in the order in which they first occur, each with the exact sum of its powers; and where there is
no normal form, the error tells the name whose sum is the first to leave the range.
-/

namespace Mensura.Factor

/-- The number fits 32 bits. -/
def IsPower (n : Int) : Prop := -2 ^ 31 ≤ n ∧ n < 2 ^ 31

/-- With the powers added up from left to right, the sum of this name is the first to leave the range. -/
def RunsOver (us : List Factor) (name : String) : Prop :=
  ∃ front, front <+: us ∧ ¬ IsPower (total front name) ∧
    ∀ shorter, shorter <+: front → shorter ≠ front → ∀ m, IsPower (total shorter m)

variable {us vs ws : List Factor} {new : Factor} {name : String}

theorem isPower_iff {n : Int} : IsPower n ↔ (int32? n).isSome := by
  rw [← Option.ne_none_iff_isSome, Ne, int32?_eq_none_iff, IsPower]
  omega

theorem absorbAll_concat (combine : Int32 → Int32 → Option Int32) (us vs : List Factor) (v : Factor) :
    absorbAll combine us (vs ++ [v]) = absorbAll combine us vs >>= absorb combine v := by
  simp [absorbAll, List.foldlM_append]

/-! ### The names of a normal form -/

/-- A name is joined to others at the end, unless it is there already. -/
theorem map_name_absorb (h : absorb addPower new us = .ok vs) :
    vs.map Factor.name =
      if new.name ∈ us.map Factor.name then us.map Factor.name else us.map Factor.name ++ [new.name] := by
  obtain ⟨before, u, after, p, rfl, same, -, -, rfl⟩ | ⟨absent, rfl⟩ := absorb_eq_ok h
  · rw [if_pos (by simp [← same])]
    simp
  · rw [if_neg absent]
    simp

theorem eraseDups_concat (names : List String) (name : String) :
    (names ++ [name]).eraseDups = if name ∈ names then names.eraseDups else names.eraseDups ++ [name] := by
  rw [List.eraseDups_append]
  by_cases known : name ∈ names <;> simp [List.removeAll, known, List.eraseDups_cons]

/-- Every name stands where it first occurs. -/
theorem map_name_absorbAll (h : absorbAll addPower [] us = .ok ws) :
    ws.map Factor.name = (us.map Factor.name).eraseDups := by
  induction us using List.reverseRecOn generalizing ws with
  | nil => cases h; rfl
  | append_singleton us u ih =>
    rw [absorbAll_concat] at h
    obtain ⟨vs, others, last⟩ := bind_eq_ok.mp h
    rw [map_name_absorb last, ih others, List.map_append, List.map_cons, List.map_nil, eraseDups_concat]
    simp only [List.mem_eraseDups]

/-- In a normal form stand the names whose powers do not cancel, each where it first occurs. -/
theorem map_name_normalize (h : normalize us = .ok vs) :
    vs.map Factor.name = (us.map Factor.name).eraseDups.filter (total us · ≠ 0) := by
  obtain ⟨ws, all, rfl⟩ := map_eq_ok.mp h
  have distinct := distinct_absorbAll all List.nodup_nil
  have sums : total ws = total us := by simpa using total_absorbAll all
  rw [← map_name_absorbAll all, List.filter_map, withoutZeros]
  congr 1
  apply List.filter_congr
  intro w mem
  have power : total us w.name = w.power.toInt := by rw [← sums, total_of_mem distinct mem]
  have zero : w.power ≠ 0 ↔ w.power.toInt ≠ 0 := not_congr Int32.toInt_inj.symm
  rw [Bool.eq_iff_iff, Function.comp_apply, bne_iff_ne, decide_eq_true_iff, power]
  exact zero

theorem mem_names_of_normal (h : Normal us) : name ∈ us.map Factor.name ↔ total us name ≠ 0 := by
  constructor
  · intro mem
    obtain ⟨u, here, rfl⟩ := List.mem_map.mp mem
    rw [total_of_mem h.distinct here]
    exact fun zero => h.nonzero u here (Int32.toInt_inj.mp zero)
  · exact mem_names_of_total_ne_zero us name

/-- Lists with the same distinct names in the same order and the same sums are the same. -/
theorem eq_of_map_name (distinct : (us.map Factor.name).Nodup) (names : vs.map Factor.name = us.map Factor.name)
    (sums : total vs = total us) : vs = us := by
  induction us generalizing vs with
  | nil => exact List.map_eq_nil_iff.mp names
  | cons u us ih =>
    cases vs with
    | nil => cases names
    | cons v vs =>
      obtain ⟨first, rest⟩ := List.cons.inj names
      have distinct' : ((v :: vs).map Factor.name).Nodup := names ▸ distinct
      have power : v.power = u.power := by
        apply Int32.toInt_inj.mp
        rw [← total_of_mem distinct' List.mem_cons_self, ← total_of_mem distinct List.mem_cons_self, sums, first]
      obtain rfl : v = u := by
        cases u
        cases v
        simp_all
      congr 1
      apply ih distinct.of_cons rest
      funext name
      have sum := congrFun sums name
      rw [total_cons, total_cons] at sum
      omega

/-! ### When there is a normal form -/

/-- As long as all sums fit, all factors can be joined. -/
theorem exists_absorbAll_nil_iff :
    (∃ ws, absorbAll addPower [] us = .ok ws) ↔ ∀ front, front <+: us → ∀ m, IsPower (total front m) := by
  constructor
  · rintro ⟨ws, h⟩ front ⟨rest, rfl⟩ m
    rw [absorbAll, List.foldlM_append] at h
    obtain ⟨vs, joined, -⟩ := bind_eq_ok.mp h
    have sums : total vs = total front := by simpa using total_absorbAll joined
    rw [isPower_iff, ← sums]
    exact isSome_int32?_total (distinct_absorbAll joined List.nodup_nil) m
  · intro fits
    have distinct : (([] : List Factor).map Factor.name).Nodup := List.nodup_nil
    rw [exists_absorbAll_iff distinct]
    intro before v after split
    have front : before ++ [v] <+: us := ⟨after, by rw [split, List.append_assoc]; rfl⟩
    rw [total_nil, Pi.zero_apply, Int.zero_add]
    exact isPower_iff.mp (fits _ front v.name)

theorem exists_normalize_iff :
    (∃ vs, normalize us = .ok vs) ↔ ∀ front, front <+: us → ∀ m, IsPower (total front m) := by
  rw [← exists_absorbAll_nil_iff]
  constructor
  · rintro ⟨vs, h⟩
    obtain ⟨ws, all, -⟩ := map_eq_ok.mp h
    exact ⟨ws, all⟩
  · rintro ⟨ws, all⟩
    exact ⟨withoutZeros ws, map_eq_ok.mpr ⟨ws, all, rfl⟩⟩

/-- The error stands at the first factor that cannot be joined to those in front of it. -/
theorem absorbAll_nil_eq_error {e : UnitError} (h : absorbAll addPower [] us = .error e) :
    ∃ before u after vs, us = before ++ u :: after ∧ absorbAll addPower [] before = .ok vs ∧
      absorb addPower u vs = .error e := by
  induction us using List.reverseRecOn with
  | nil => cases h
  | append_singleton us u ih =>
    rw [absorbAll_concat] at h
    obtain first | ⟨vs, others, last⟩ := bind_eq_error.mp h
    · obtain ⟨before, w, after, vs, rfl, joined, refused⟩ := ih first
      exact ⟨before, w, after ++ [u], vs, by simp, joined, refused⟩
    · exact ⟨us, u, [], vs, rfl, others, last⟩

/-- Only the sum of the name that is joined changes. -/
theorem total_concat_of_ne {u : Factor} (other : u.name ≠ name) : total (us ++ [u]) name = total us name := by
  simp [other]

theorem RunsOver.unique {m n : String} (hm : RunsOver us m) (hn : RunsOver us n) : m = n := by
  obtain ⟨front, within, outside, fits⟩ := hm
  obtain ⟨front', within', outside', fits'⟩ := hn
  obtain rfl : front = front' := by
    by_contra apart
    obtain shorter | shorter := List.prefix_or_prefix_of_prefix within within'
    · exact outside (fits' front shorter apart m)
    · exact outside' (fits front' shorter (Ne.symm apart) n)
  obtain rfl | ⟨before, u, rfl⟩ := List.eq_nil_or_concat' front
  · exact absurd (by simp [IsPower]) outside
  · have fits := fits before (List.prefix_append _ _) (by simp)
    have changed (k : String) (runs : ¬ IsPower (total (before ++ [u]) k)) : u.name = k := by
      by_contra other
      rw [total_concat_of_ne other] at runs
      exact runs (fits k)
    rw [← changed m outside, ← changed n outside']

theorem runsOver_of_error {e : UnitError} (h : normalize us = .error e) :
    ∃ name, e = .powerOverflow name ∧ RunsOver us name := by
  obtain ⟨before, u, after, vs, rfl, joined, refused⟩ := absorbAll_nil_eq_error (map_eq_error.mp h)
  have sums : total vs = total before := by simpa using total_absorbAll joined
  refine ⟨u.name, absorb_eq_error refused, before ++ [u], ⟨after, by simp⟩, ?outside, ?fits⟩
  case outside =>
    rw [isPower_iff, total_append, total_cons, if_pos rfl, total_nil, Pi.zero_apply, Int.add_zero, ← sums,
      ← exists_absorb_iff (distinct_absorbAll joined List.nodup_nil), refused]
    exact nofun
  case fits =>
    intro shorter within apart
    obtain whole | within := List.prefix_concat_iff.mp within
    · exact absurd whole apart
    · exact exists_absorbAll_nil_iff.mp ⟨vs, joined⟩ shorter within

theorem normalize_eq_error_iff : normalize us = .error (.powerOverflow name) ↔ RunsOver us name := by
  constructor
  · intro h
    obtain ⟨m, same, runs⟩ := runsOver_of_error h
    cases same
    exact runs
  · intro runs
    cases h : normalize us with
    | ok vs =>
      obtain ⟨front, within, outside, -⟩ := runs
      exact absurd (exists_normalize_iff.mp ⟨vs, h⟩ front within name) outside
    | error e =>
      obtain ⟨m, rfl, runs'⟩ := runsOver_of_error h
      rw [runs.unique runs']

/-- Normalising is exact, for every list of factors. A normal form has distinct names, those whose powers do not add up
to zero, in the order in which they first occur; the power of each is the sum of its powers over the integers, and it is
not zero. A normal form stays what it is. There is one if no sum on the way leaves the range; otherwise the error tells
the name of the first sum that does. -/
theorem normalize_exact (us : List Factor) :
    (∀ vs, normalize us = .ok vs →
      (vs.map Factor.name).Nodup ∧
      vs.map Factor.name = (us.map Factor.name).eraseDups.filter (total us · ≠ 0) ∧
      (∀ name, name ∈ vs.map Factor.name ↔ total us name ≠ 0) ∧
      (∀ v ∈ vs, v.power ≠ 0 ∧ v.power.toInt = total us v.name) ∧
      normalize vs = .ok vs) ∧
    ((∃ vs, normalize us = .ok vs) ↔ ∀ front, front <+: us → ∀ name, IsPower (total front name)) ∧
    (∀ e, normalize us = .error e ↔ ∃ name, e = .powerOverflow name ∧ RunsOver us name) := by
  refine ⟨?form, exists_normalize_iff, ?fails⟩
  case form =>
    intro vs h
    have normal := normal_normalize h
    have sums := total_normalize h
    refine ⟨normal.distinct, map_name_normalize h, ?_, ?_, normalize_of_normal normal⟩
    · intro name
      rw [mem_names_of_normal normal, sums]
    · intro v mem
      rw [← sums, total_of_mem normal.distinct mem]
      exact ⟨normal.nonzero v mem, rfl⟩
  case fails =>
    intro e
    constructor
    · exact runsOver_of_error
    · rintro ⟨name, rfl, runs⟩
      exact normalize_eq_error_iff.mpr runs

/-- Powers that cancel and come back, and a sum that leaves the range and would come back into it. -/
theorem normalize_exact_returning :
    let us : List Factor := [⟨"m", 2⟩, ⟨"s", 0⟩, ⟨"kg", 1⟩, ⟨"m", -2⟩, ⟨"A", -3⟩, ⟨"m", 5⟩]
    let large : List Factor := [⟨"m", 1⟩, ⟨"s", 2147483647⟩, ⟨"s", 1⟩, ⟨"m", 2147483647⟩, ⟨"s", -9⟩]
    normalize us = .ok [⟨"m", 5⟩, ⟨"kg", 1⟩, ⟨"A", -3⟩] ∧ total us "m" = 5 ∧ total us "s" = 0 ∧
      (∀ v ∈ ([⟨"m", 5⟩, ⟨"kg", 1⟩, ⟨"A", -3⟩] : List Factor), v.power ≠ 0 ∧ v.power.toInt = total us v.name) ∧
      normalize large = .error (.powerOverflow "s") ∧ RunsOver large "s" := by
  intro us large
  obtain ⟨form, -, -⟩ := normalize_exact us
  obtain ⟨-, -, failure⟩ := normalize_exact large
  have formed : normalize us = .ok [⟨"m", 5⟩, ⟨"kg", 1⟩, ⟨"A", -3⟩] := by decide
  have failed : normalize large = .error (.powerOverflow "s") := by decide
  obtain ⟨-, -, -, powers, -⟩ := form _ formed
  obtain ⟨name, same, runs⟩ := (failure _).mp failed
  cases same
  exact ⟨formed, by decide, by decide, powers, failed, runs⟩

end Mensura.Factor
