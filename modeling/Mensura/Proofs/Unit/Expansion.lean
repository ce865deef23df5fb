import Mensura.Proofs.Unit.Dimension

/-!
Expanding a unit. Names are followed through the table along routes, and a route multiplies the powers on its
way. An expansion adds the routes up: it holds base units only, with the sum of what arrives at each of them.
It fails for every unit that mentions a name without a meaning or a name that leads back to itself, and apart
from these only for a power that is out of range.
-/

namespace Mensura

namespace UnitTable

/-- The names in a product of factors, and those in the definitions of names mentioned by it. -/
inductive Mentions (table : UnitTable) : List Factor → String → Prop where
  | written {us : List Factor} {u : Factor} (mem : u ∈ us) : Mentions table us u.name
  | inside {us : List Factor} {u : Factor} {definition : UnitExpr} {name : String} (mem : u ∈ us)
      (known : table.lookup u.name = some definition) (inner : Mentions table definition.factors name) :
      Mentions table us name

/-- The definition of the name leads back to it. -/
def Circular (table : UnitTable) (name : String) : Prop :=
  ∃ definition, table.lookup name = some definition ∧ table.Mentions definition.factors name

/-- The name is neither declared nor that of a base unit. -/
def Unknown (table : UnitTable) (name : String) : Prop := table.lookup name = none ∧ name ∉ baseUnits

/-- Only base units that the table does not declare. -/
def Settled (table : UnitTable) (us : List Factor) : Prop :=
  ∀ u ∈ us, table.lookup u.name = none ∧ u.name ∈ baseUnits

/-- Where a route ends and the product of the powers on it. A route says which factor to take, then which one
of its name's definition, and so on, and it ends at a name that is not declared. -/
def follow (table : UnitTable) : List Factor → List Nat → Option (String × Int)
  | _, [] => none
  | us, i :: route =>
    match us[i]? with
    | none => none
    | some u =>
      match table.lookup u.name with
      | none => if route = [] then some (u.name, u.power.toInt) else none
      | some definition =>
        (follow table definition.factors route).map fun (name, power) => (name, u.power.toInt * power)

/-- What a route contributes to the power of a base unit. -/
def contribution (table : UnitTable) (us : List Factor) (b : BaseUnit) (route : List Nat) : Int :=
  match table.follow us route with
  | some (name, power) => if name = b.1 then power else 0
  | none => 0

end UnitTable

section
variable {table : UnitTable} {u : Factor} {us vs : List Factor} {d : Dimension}

open UnitTable (Mentions Circular Unknown Settled follow contribution)

theorem UnitTable.Mentions.trans {m n : String} {definition : UnitExpr} (first : Mentions table us m)
    (known : table.lookup m = some definition) (further : Mentions table definition.factors n) :
    Mentions table us n := by
  induction first with
  | written mem => exact .inside mem known further
  | inside mem known' _ ih => exact .inside mem known' (ih known)

theorem UnitTable.Mentions.cons_cases {name : String} (h : Mentions table (u :: us) name) :
    name = u.name ∨
      (∃ definition, table.lookup u.name = some definition ∧ Mentions table definition.factors name) ∨
      Mentions table us name := by
  cases h with
  | written mem =>
    obtain rfl | mem := List.mem_cons.mp mem
    · exact .inl rfl
    · exact .inr (.inr (.written mem))
  | inside mem known inner =>
    obtain rfl | mem := List.mem_cons.mp mem
    · exact .inr (.inl ⟨_, known, inner⟩)
    · exact .inr (.inr (.inside mem known inner))

namespace HasDimension

/-- A product with a dimension mentions neither unknown names nor names that lead back to themselves. -/
theorem sound (h : HasDimension table us d) {name : String} (mentions : Mentions table us name) :
    ¬ Circular table name ∧ ¬ Unknown table name := by
  induction h with
  | nil => cases mentions with
    | written mem => cases mem
    | inside mem => cases mem
  | base free base _ ih =>
    obtain rfl | ⟨definition, known, -⟩ | later := mentions.cons_cases
    · refine ⟨?_, fun unknown => unknown.2 base⟩
      rintro ⟨definition, known, -⟩
      rw [free] at known
      cases known
    · rw [free] at known
      cases known
    · exact ih later
  | declared known _ _ ihInner ihRest =>
    obtain rfl | ⟨definition, known', inner⟩ | later := mentions.cons_cases
    · refine ⟨?_, fun unknown => nomatch known.symm.trans unknown.1⟩
      rintro ⟨definition, known', back⟩
      rw [known] at known'
      cases known'
      exact (ihInner back).1 ⟨_, known, back⟩
    · rw [known] at known'
      cases known'
      exact ihInner inner
    · exact ihRest later

end HasDimension

/-! ### Routes -/

/-- The route through the factors behind the first one. -/
def UnitTable.later : List Nat → List Nat
  | [] => []
  | i :: route => (i + 1) :: route

theorem UnitTable.later_injective : Function.Injective later := by
  intro r s h
  cases r <;> cases s <;> simp_all [later]

@[simp] theorem UnitTable.follow_later (route : List Nat) :
    follow table (u :: us) (later route) = follow table us route := by
  cases route with
  | nil => simp [later, follow]
  | cons i route => simp [later, follow]

theorem UnitTable.follow_base (free : table.lookup u.name = none) (route : List Nat) :
    follow table (u :: us) (0 :: route) = if route = [] then some (u.name, u.power.toInt) else none := by
  simp [follow, free]

theorem UnitTable.follow_declared {definition : UnitExpr} (known : table.lookup u.name = some definition)
    (route : List Nat) :
    follow table (u :: us) (0 :: route) =
      (follow table definition.factors route).map fun (name, power) => (name, u.power.toInt * power) := by
  simp [follow, known]

/-- The routes through a product are those through its first factor and those through the others. -/
theorem UnitTable.routes_cons (first rest : Finset (List Nat))
    (hfirst : ∀ route, route ∈ first ↔ (follow table (u :: us) (0 :: route)).isSome)
    (hrest : ∀ route, route ∈ rest ↔ (follow table us route).isSome) :
    ∃ routes : Finset (List Nat), (∀ route, route ∈ routes ↔ (follow table (u :: us) route).isSome) ∧
      ∀ b, ∑ route ∈ routes, contribution table (u :: us) b route =
        ∑ route ∈ first, contribution table (u :: us) b (0 :: route) +
          ∑ route ∈ rest, contribution table us b route := by
  refine ⟨first.image (0 :: ·) ∪ rest.image later, ?_, ?_⟩
  · intro route
    simp only [Finset.mem_union, Finset.mem_image]
    constructor
    · rintro (⟨r, hr, rfl⟩ | ⟨r, hr, rfl⟩)
      · exact (hfirst r).mp hr
      · rw [follow_later]
        exact (hrest r).mp hr
    · intro ends
      match route with
      | [] => simp [follow] at ends
      | 0 :: r => exact .inl ⟨r, (hfirst r).mpr ends, rfl⟩
      | (i + 1) :: r =>
        refine .inr ⟨i :: r, (hrest _).mpr ?_, rfl⟩
        rwa [← follow_later (u := u)]
  · intro b
    have apart : Disjoint (first.image (0 :: ·)) (rest.image later) := by
      rw [Finset.disjoint_left]
      intro route hf hr
      obtain ⟨r, -, rfl⟩ := Finset.mem_image.mp hf
      obtain ⟨s, -, same⟩ := Finset.mem_image.mp hr
      cases s <;> simp [later] at same
    rw [Finset.sum_union apart, Finset.sum_image (by simp), Finset.sum_image later_injective.injOn]
    simp only [contribution, follow_later]

namespace HasDimension

/-- The power of a base unit in a dimension is the sum over all routes of the product of the powers on the
route. There are finitely many routes. -/
theorem eq_sum_routes (h : HasDimension table us d) :
    ∃ routes : Finset (List Nat), (∀ route, route ∈ routes ↔ (follow table us route).isSome) ∧
      ∀ b, d b = ∑ route ∈ routes, contribution table us b route := by
  induction h with
  | nil =>
    refine ⟨∅, ?_, fun b => rfl⟩
    intro route
    cases route <;> simp [follow]
  | @base u us d free base _ ih =>
    obtain ⟨rest, hrest, sum⟩ := ih
    obtain ⟨routes, hroutes, total⟩ := UnitTable.routes_cons (u := u) {[]} rest
      (fun route => by rw [UnitTable.follow_base free]; split <;> simp_all) hrest
    refine ⟨routes, hroutes, ?_⟩
    intro b
    have power : contribution table (u :: us) b [0] = (u.power.toInt • Pi.single ⟨u.name, base⟩ 1 : Dimension) b := by
      by_cases same : u.name = b.1
      · obtain rfl : b = ⟨u.name, base⟩ := Subtype.ext same.symm
        simp [contribution, UnitTable.follow_base free]
      · have other : b ≠ ⟨u.name, base⟩ := fun h => same (congrArg Subtype.val h).symm
        simp [contribution, UnitTable.follow_base free, same, Pi.single_eq_of_ne other]
    rw [total, Finset.sum_singleton, power, ← sum]
    rfl
  | @declared u us definition e d known _ _ ihInner ihRest =>
    obtain ⟨inner, hinner, sumInner⟩ := ihInner
    obtain ⟨rest, hrest, sumRest⟩ := ihRest
    obtain ⟨routes, hroutes, total⟩ := UnitTable.routes_cons (u := u) inner rest
      (fun route => by rw [UnitTable.follow_declared known, hinner]; simp) hrest
    refine ⟨routes, hroutes, ?_⟩
    intro b
    have power (route : List Nat) : contribution table (u :: us) b (0 :: route) =
        u.power.toInt * contribution table definition.factors b route := by
      simp only [contribution, UnitTable.follow_declared known]
      cases follow table definition.factors route with
      | none => simp
      | some p => simp
    rw [total, ← sumRest]
    simp only [power, ← Finset.mul_sum, ← sumInner]
    rfl

end HasDimension

/-! ### What an expansion returns -/

namespace UnitTable

/-- How a declared name is replaced: not while it is being replaced already. -/
def entered (table : UnitTable) (depth : Nat) (path : List String) (name : String) (power : Int32)
    (definition : UnitExpr) : Except UnitError (List Factor) :=
  match depth with
  | 0 => .error (.recursive name)
  | depth + 1 =>
    if name ∈ path then .error (.recursive name)
    else table.baseFactors depth (name :: path) power definition.factors

theorem baseFactors_eq (table : UnitTable) (depth : Nat) (path : List String) (power : Int32) (us : List Factor) :
    table.baseFactors depth path power us =
      (us.mapM (table.replaceFactor (table.entered depth path) power)).map List.flatten := by
  cases depth <;> rfl

theorem replaceFactor_eq_ok {depth : Nat} {path : List String} {power : Int32}
    (h : table.replaceFactor (table.entered depth path) power u = .ok vs) :
    ∃ p : Int32, p.toInt = u.power.toInt * power.toInt ∧
      ((∃ definition k, table.lookup u.name = some definition ∧ depth = k + 1 ∧
          table.baseFactors k (u.name :: path) p definition.factors = .ok vs) ∨
        (table.lookup u.name = none ∧ u.name ∈ baseUnits ∧ vs = [⟨u.name, p⟩])) := by
  unfold replaceFactor at h
  split at h
  · cases h
  rename_i p hp
  refine ⟨p, int32?_eq_some_iff.mp hp, ?_⟩
  split at h
  · rename_i definition known
    unfold entered at h
    split at h
    · cases h
    · split at h
      · cases h
      · exact .inl ⟨definition, _, known, rfl, h⟩
  · rename_i free
    split at h
    · rename_i base
      cases h
      exact .inr ⟨free, base, rfl⟩
    · cases h

theorem Settled.hasDimension (h : Settled table us) : HasDimension table us (.ofFactors us) := by
  induction us with
  | nil => exact .nil
  | cons u us ih =>
    obtain ⟨⟨free, base⟩, rest⟩ := List.forall_mem_cons.mp h
    have single : Dimension.ofFactors (u :: us) =
        u.power.toInt • Pi.single ⟨u.name, base⟩ 1 + Dimension.ofFactors us := by
      funext b
      by_cases same : u.name = b.1
      · obtain rfl : b = ⟨u.name, base⟩ := Subtype.ext same.symm
        simp [Dimension.ofFactors]
      · have other : b ≠ ⟨u.name, base⟩ := fun h => same (congrArg Subtype.val h).symm
        simp [Dimension.ofFactors, same, Pi.single_eq_of_ne other]
    exact single ▸ .base free base (ih rest)

/-- The base factors that come back have the dimension of the product, raised to the power. -/
theorem baseFactors_eq_ok {depth : Nat} {path : List String} {power : Int32}
    (h : table.baseFactors depth path power us = .ok vs) :
    Settled table vs ∧ ∃ d, HasDimension table us d ∧ Dimension.ofFactors vs = power.toInt • d := by
  induction depth using Nat.strongRecOn generalizing path power us vs with
  | ind depth ihDepth =>
    rw [baseFactors_eq] at h
    obtain ⟨parts, each, rfl⟩ := map_eq_ok.mp h
    replace each := mapM_eq_ok each
    clear h
    induction each with
    | nil => exact ⟨nofun, 0, .nil, by simp; rfl⟩
    | @cons u part us parts first _ ih =>
      obtain ⟨settled, d, rest, sum⟩ := ih
      have add : Dimension.ofFactors (part ++ parts.flatten) =
          Dimension.ofFactors part + power.toInt • d := by
        rw [← sum]
        funext b
        exact Factor.total_append ..
      rw [List.flatten_cons, add]
      obtain ⟨p, product, ⟨definition, k, known, rfl, inner⟩ | ⟨free, base, rfl⟩⟩ := replaceFactor_eq_ok first
      · obtain ⟨settledInner, e, he, same⟩ := ihDepth k (Nat.lt_succ_self k) inner
        refine ⟨List.forall_mem_append.mpr ⟨settledInner, settled⟩, _, .declared known he rest, ?_⟩
        rw [same, product, smul_add, smul_smul, Int.mul_comm]
      · have settledPart : Settled table [⟨u.name, p⟩] := List.forall_mem_singleton.mpr ⟨free, base⟩
        refine ⟨List.forall_mem_append.mpr ⟨settledPart, settled⟩, _, .base free base rest, ?_⟩
        have single := settledPart.hasDimension.unique (.base (u := ⟨u.name, p⟩) free base .nil)
        rw [single, product, smul_add, smul_smul, Int.mul_comm, add_zero]

end UnitTable

/-! ### Why an expansion fails -/

namespace UnitTable

/-- What an error says about a product: the name is mentioned and is as the error says. A power that is out
of range says nothing about the names. -/
def Explains (table : UnitTable) (us : List Factor) : UnitError → Prop
  | .recursive name => table.Mentions us name ∧ table.Circular name
  | .undeclared name => table.Mentions us name ∧ table.Unknown name
  | .powerOverflow _ => True

/-- The names that are being replaced: declared, each once, and with definitions that lead to the factors at
hand. With those that can still join them they are as many as the table has. -/
structure OnPath (table : UnitTable) (depth : Nat) (path : List String) (us : List Factor) : Prop where
  distinct : path.Nodup
  room : path.length + depth = table.length
  leads : ∀ name ∈ path, ∃ definition, table.lookup name = some definition ∧
    ∀ u ∈ us, table.Mentions definition.factors u.name

theorem OnPath.start (table : UnitTable) (us : List Factor) : table.OnPath table.length [] us :=
  ⟨List.nodup_nil, Nat.zero_add _, nofun⟩

theorem mem_names_of_lookup {name : String} {definition : UnitExpr} (known : table.lookup name = some definition) :
    name ∈ table.map Prod.fst := by
  obtain ⟨before, after, rfl, -⟩ := List.lookup_eq_some_iff.mp known
  simp

/-- With no room left, every declared name is on the path. -/
theorem OnPath.mem_of_full {path : List String} {definition : UnitExpr} (h : table.OnPath 0 path us)
    (known : table.lookup u.name = some definition) : u.name ∈ path := by
  by_contra fresh
  have declared : u.name :: path ⊆ table.map Prod.fst := by
    intro name mem
    obtain rfl | mem := List.mem_cons.mp mem
    · exact mem_names_of_lookup known
    · obtain ⟨_, known, -⟩ := h.leads name mem
      exact mem_names_of_lookup known
  have room := (List.subperm_of_subset (List.nodup_cons.mpr ⟨fresh, h.distinct⟩) declared).length_le
  have full := h.room
  simp only [List.length_cons, List.length_map] at room
  omega

/-- Entering a definition puts its name on the path. -/
theorem OnPath.enter {depth : Nat} {path : List String} {definition : UnitExpr}
    (h : table.OnPath (depth + 1) path us) (mem : u ∈ us) (known : table.lookup u.name = some definition)
    (fresh : u.name ∉ path) : table.OnPath depth (u.name :: path) definition.factors where
  distinct := List.nodup_cons.mpr ⟨fresh, h.distinct⟩
  room := by
    have := h.room
    rw [List.length_cons]
    omega
  leads name on := by
    obtain rfl | on := List.mem_cons.mp on
    · exact ⟨definition, known, fun v hv => .written hv⟩
    · obtain ⟨outer, knownOuter, leads⟩ := h.leads name on
      exact ⟨outer, knownOuter, fun v hv => (leads u mem).trans known (.written hv)⟩

/-- A name that is met while it is being replaced leads back to itself. -/
theorem OnPath.circular {depth : Nat} {path : List String} (h : table.OnPath depth path us) (mem : u ∈ us)
    (on : u.name ∈ path) : table.Circular u.name := by
  obtain ⟨definition, known, leads⟩ := h.leads u.name on
  exact ⟨definition, known, leads u mem⟩

theorem Explains.inside {definition : UnitExpr} {e : UnitError} (h : table.Explains definition.factors e)
    (mem : u ∈ us) (known : table.lookup u.name = some definition) : table.Explains us e := by
  cases e with
  | recursive name => exact ⟨.inside mem known h.1, h.2⟩
  | undeclared name => exact ⟨.inside mem known h.1, h.2⟩
  | powerOverflow name => trivial

theorem baseFactors_eq_error {depth : Nat} {path : List String} {power : Int32} {e : UnitError}
    (h : table.baseFactors depth path power us = .error e) (on : table.OnPath depth path us) :
    table.Explains us e := by
  induction depth using Nat.strongRecOn generalizing path power us with
  | ind depth ih =>
    rw [baseFactors_eq] at h
    obtain ⟨u, mem, h⟩ := mapM_eq_error (map_eq_error.mp h)
    unfold replaceFactor at h
    split at h
    · cases h
      trivial
    split at h
    · rename_i definition known
      unfold entered at h
      split at h
      · cases h
        exact ⟨.written mem, on.circular mem (on.mem_of_full known)⟩
      · split at h
        · rename_i again
          cases h
          exact ⟨.written mem, on.circular mem again⟩
        · rename_i fresh
          exact (ih _ (Nat.lt_succ_self _) h (on.enter mem known fresh)).inside mem known
    · rename_i free
      split at h
      · cases h
      · rename_i other
        cases h
        exact ⟨.written mem, free, other⟩

end UnitTable

/-! ### Expansions -/

namespace UnitExpr

variable {r : UnitExpr}

/-- An expansion has the dimension of the unit, in base units that the table does not declare. -/
theorem expand_eq_ok {v : UnitExpr} (h : v.expand table = .ok r) :
    HasDimension table v.factors (.ofFactors r.factors) ∧ Settled table r.factors ∧
      Factor.Normal r.factors := by
  obtain ⟨bases, flat, h⟩ := bind_eq_ok.mp h
  obtain ⟨rs, normalized, h⟩ := bind_eq_ok.mp h
  cases h
  obtain ⟨settled, d, dimension, same⟩ := UnitTable.baseFactors_eq_ok flat
  have kept : Dimension.ofFactors rs = Dimension.ofFactors bases := by
    funext b
    exact congrFun (Factor.total_normalize normalized) b.1
  have settledNormal : Settled table rs := by
    intro f mem
    obtain ⟨g, hg, name⟩ := List.mem_map.mp (Factor.names_normalize normalized (List.mem_map_of_mem mem))
    exact name ▸ settled g hg
  refine ⟨?_, settledNormal, Factor.normal_normalize normalized⟩
  rwa [kept, same.trans (one_smul Int d)]

theorem expand_eq_error {v : UnitExpr} {e : UnitError} (h : v.expand table = .error e) :
    table.Explains v.factors e := by
  obtain h | ⟨bases, -, h⟩ := bind_eq_error.mp h
  · exact UnitTable.baseFactors_eq_error h (.start table v.factors)
  obtain h | ⟨rs, -, h⟩ := bind_eq_error.mp h
  · obtain ⟨f, -, rfl⟩ := Factor.normalize_eq_error h
    trivial
  · cases h

theorem mapM_replaceFactor_of_settled {us : List Factor} (settled : Settled table us) :
    us.mapM (table.replaceFactor (table.entered table.length []) 1) = .ok (us.map fun f => [f]) := by
  induction us with
  | nil => rfl
  | cons u us ih =>
    obtain ⟨⟨free, base⟩, rest⟩ := List.forall_mem_cons.mp settled
    have power : multiplyPower u.power 1 = some u.power := int32?_eq_some_iff.mpr (by simp)
    have first : table.replaceFactor (table.entered table.length []) 1 u = .ok [u] := by
      simp only [UnitTable.replaceFactor, power, free, if_pos base]
    rw [List.mapM_cons, first, ih rest]
    rfl

/-- Nothing is left to replace in a normal form of base units. -/
theorem expand_of_settled (settled : Settled table r.factors) (normal : Factor.Normal r.factors) :
    r.expand table = .ok r := by
  have flat : table.baseFactors table.length [] 1 r.factors = .ok r.factors := by
    rw [UnitTable.baseFactors_eq, mapM_replaceFactor_of_settled settled]
    exact congrArg Except.ok (List.flatMap_singleton' r.factors)
  rw [expand, flat]
  exact bind_eq_ok.mpr ⟨r.factors, rfl, bind_eq_ok.mpr ⟨r.factors, Factor.normalize_of_normal normal, rfl⟩⟩

/-- **Expansions are exact**, for every table, also one whose definitions lead back to themselves. What comes
back holds base units that the table leaves alone, each once, with the sum over all routes of the product of
the powers on the route, and expanding it changes nothing. An error names what is wrong with the unit, every
unit with something wrong in it is an error, and all that can happen to another is a power out of range. -/
theorem expand_exact (table : UnitTable) (u : UnitExpr) :
    (∀ r, u.expand table = .ok r →
      (∀ f ∈ r.factors, f.name ∈ baseUnits ∧ table.lookup f.name = none ∧ f.power ≠ 0) ∧
      (r.factors.map Factor.name).Nodup ∧
      (∃ routes : Finset (List Nat),
        (∀ route, route ∈ routes ↔ (table.follow u.factors route).isSome) ∧
        ∀ b : BaseUnit, Factor.total r.factors b.1 = ∑ route ∈ routes, table.contribution u.factors b route) ∧
      r.expand table = .ok r) ∧
    (∀ name, u.expand table = .error (.recursive name) →
      table.Mentions u.factors name ∧ table.Circular name) ∧
    (∀ name, u.expand table = .error (.undeclared name) →
      table.Mentions u.factors name ∧ table.Unknown name) ∧
    ((∃ name, table.Mentions u.factors name ∧ (table.Circular name ∨ table.Unknown name)) →
      ∃ e, u.expand table = .error e) ∧
    ((∀ name, table.Mentions u.factors name → ¬ table.Circular name ∧ ¬ table.Unknown name) →
      ∀ e, u.expand table = .error e → ∃ name, e = .powerOverflow name) := by
  refine ⟨?_, fun name h => expand_eq_error h, fun name h => expand_eq_error h, ?_, ?_⟩
  · intro r h
    obtain ⟨dimension, settled, normal⟩ := expand_eq_ok h
    have bases : ∀ f ∈ r.factors, f.name ∈ baseUnits ∧ table.lookup f.name = none ∧ f.power ≠ 0 := by
      intro f mem
      obtain ⟨free, base⟩ := settled f mem
      exact ⟨base, free, normal.nonzero f mem⟩
    have again : r.expand table = .ok r := expand_of_settled settled normal
    exact ⟨bases, normal.distinct, dimension.eq_sum_routes, again⟩
  · rintro ⟨name, mentions, bad⟩
    cases h : u.expand table with
    | error e => exact ⟨e, rfl⟩
    | ok r =>
      obtain ⟨dimension, -⟩ := expand_eq_ok h
      obtain ⟨notCircular, notUnknown⟩ := dimension.sound mentions
      exact absurd bad (not_or.mpr ⟨notCircular, notUnknown⟩)
  · intro sound e h
    have explains := expand_eq_error h
    cases e with
    | recursive name =>
      obtain ⟨mentions, circular⟩ := explains
      exact absurd circular (sound name mentions).1
    | undeclared name =>
      obtain ⟨mentions, unknown⟩ := explains
      exact absurd unknown (sound name mentions).2
    | powerOverflow name => exact ⟨name, rfl⟩

/-- Two routes lead to the metre, and what they contribute is added up; a power that is too large is all that can go
wrong there. Where names lead back to themselves, be it through a power of zero, there is no expansion. -/
theorem expand_exact_diamond :
    let diamond : UnitTable :=
      [("d", ⟨[⟨"l", 2⟩, ⟨"r", -1⟩]⟩), ("l", ⟨[⟨"m", 3⟩, ⟨"s", 1⟩]⟩), ("r", ⟨[⟨"m", 1⟩, ⟨"kg", 0⟩]⟩)]
    let cyclic : UnitTable := [("a", ⟨[⟨"b", 0⟩]⟩), ("b", ⟨[⟨"m", 1⟩, ⟨"a", 1⟩]⟩)]
    let r : UnitExpr := ⟨[⟨"m", 10⟩, ⟨"s", 4⟩]⟩
    (expand diamond ⟨[⟨"d", 2⟩]⟩ = .ok r ∧ r.expand diamond = .ok r ∧
      ∃ routes : Finset (List Nat), [0, 0, 0] ∈ routes ∧ [0, 1, 0] ∈ routes ∧
        diamond.contribution [⟨"d", 2⟩] ⟨"m", by decide⟩ [0, 0, 0] = 12 ∧
        diamond.contribution [⟨"d", 2⟩] ⟨"m", by decide⟩ [0, 1, 0] = -2 ∧
        10 = ∑ route ∈ routes, diamond.contribution [⟨"d", 2⟩] ⟨"m", by decide⟩ route) ∧
    (∃ name, expand diamond ⟨[⟨"d", 2147483647⟩]⟩ = .error (.powerOverflow name)) ∧
    (expand cyclic ⟨[⟨"b", 1⟩]⟩ = .error (.recursive "b") ∧ cyclic.Circular "b") ∧
    ∃ e, expand cyclic ⟨[⟨"a", 0⟩]⟩ = .error e := by
  intro diamond cyclic r
  constructor
  · have expanded : expand diamond ⟨[⟨"d", 2⟩]⟩ = .ok r := by decide
    obtain ⟨-, -, ⟨routes, all, sums⟩, again⟩ := (expand_exact diamond ⟨[⟨"d", 2⟩]⟩).1 r expanded
    exact ⟨expanded, again, routes, (all _).mpr rfl, (all _).mpr rfl, by decide, by decide, sums ⟨"m", by decide⟩⟩
  constructor
  · obtain ⟨inner, -⟩ : HasDimension diamond [⟨"l", 2⟩, ⟨"r", -1⟩] _ ∧ _ :=
      expand_eq_ok (v := ⟨[⟨"l", 2⟩, ⟨"r", -1⟩]⟩) (r := ⟨[⟨"m", 5⟩, ⟨"s", 2⟩]⟩) (by decide)
    have dimension := HasDimension.declared (u := ⟨"d", 2147483647⟩) rfl inner .nil
    have refused : (expand diamond ⟨[⟨"d", 2147483647⟩]⟩).toOption = none := by decide
    cases told : expand diamond ⟨[⟨"d", 2147483647⟩]⟩ with
    | ok r =>
      rw [told] at refused
      cases refused
    | error e =>
      have only := (expand_exact diamond ⟨[⟨"d", 2147483647⟩]⟩).2.2.2.2
      obtain ⟨name, rfl⟩ := only (fun name mentions => dimension.sound mentions) e told
      exact ⟨name, rfl⟩
  constructor
  · have told : expand cyclic ⟨[⟨"b", 1⟩]⟩ = .error (.recursive "b") := by decide
    exact ⟨told, ((expand_exact cyclic ⟨[⟨"b", 1⟩]⟩).2.1 "b" told).2⟩
  · have back : cyclic.Mentions [⟨"b", 0⟩] "a" :=
      .inside (u := ⟨"b", 0⟩) (by decide) rfl (.written (u := ⟨"a", 1⟩) (by decide))
    have met : cyclic.Mentions [⟨"a", 0⟩] "a" := .written (u := ⟨"a", 0⟩) (by decide)
    exact (expand_exact cyclic ⟨[⟨"a", 0⟩]⟩).2.2.2.1 ⟨"a", met, .inl ⟨_, rfl, back⟩⟩

end UnitExpr

end

end Mensura
