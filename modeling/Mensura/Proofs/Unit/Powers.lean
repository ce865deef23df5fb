import Mathlib.Tactic.Ring
import Mensura.Proofs.Unit.Normal

/-!
The laws of powers and roots of units, as they are written. Raising multiplies the powers before they are added up,
while a root adds them up first and divides then. Main statement: up to the order of the factors, powers of powers
multiply, a power of a product is the product of the powers, and a unit has a root just if the sums of its powers are
even; squaring takes back the root, and the root of a square is the normal form to the last detail.
-/

namespace Mensura

namespace Factor

variable {us vs ws : List Factor}

/-- Half of an even power. -/
def half (u : Factor) : Factor := ⟨u.name, Int32.ofInt (u.power.toInt / 2)⟩

theorem map_name_half (us : List Factor) : (us.map half).map Factor.name = us.map Factor.name := by
  simp [half, Function.comp_def]

/-- Doubling takes back halving, if the powers are even. -/
theorem mapPowers_half (even : ∀ u ∈ us, u.power.toInt % 2 = 0) :
    mapPowers (multiplyPower · 2) (us.map half) = .ok us := by
  induction us with
  | nil => rfl
  | cons u us ih =>
    obtain ⟨first, rest⟩ := List.forall_mem_cons.mp even
    have twice : (2 : Int32).toInt = 2 := rfl
    have power : multiplyPower u.half.power 2 = some u.power := by
      apply int32?_eq_some_iff.mpr
      rw [half, UnitExpr.toInt_half, twice]
      omega
    have others := ih rest
    unfold mapPowers at others ⊢
    simp only [List.map_cons, List.mapM_cons, power, others]
    rfl

/-- The powers of a part are changed like those of the whole. -/
theorem mapPowers_append {f : Int32 → Option Int32} (h : mapPowers f (us ++ vs) = .ok ws) :
    ∃ front rest, ws = front ++ rest ∧ mapPowers f us = .ok front := by
  rw [mapPowers, List.mapM_append] at h
  obtain ⟨front, first, h⟩ := bind_eq_ok.mp h
  obtain ⟨rest, -, h⟩ := bind_eq_ok.mp h
  cases h
  exact ⟨front, rest, rfl, first⟩

/-- Factors whose doubled powers have a normal form have one themselves: their sums are nearer to zero all the way. -/
theorem exists_normalize_of_doubled (doubled : mapPowers (multiplyPower · 2) us = .ok vs)
    (form : normalize vs = .ok ws) : ∃ r, normalize us = .ok r := by
  rw [exists_normalize_iff]
  rintro front ⟨rest, rfl⟩ name
  obtain ⟨front', rest', rfl, first⟩ := mapPowers_append doubled
  have twice : total front' name = 2 * total front name := (mapPowers_multiply_eq_ok first).1 name
  have fits := exists_normalize_iff.mp ⟨ws, form⟩ front' (List.prefix_append _ _) name
  rw [twice] at fits
  unfold IsPower at fits ⊢
  omega

/-- The sums of the powers are even just if the powers of the normal form are. -/
theorem even_iff_of_normalize (form : normalize us = .ok vs) :
    (∀ name, 2 ∣ total us name) ↔ ∀ v ∈ vs, v.power.toInt % 2 = 0 := by
  have normal := normal_normalize form
  rw [← total_normalize form]
  constructor
  · intro even v mem
    have whole := even v.name
    rw [total_of_mem normal.distinct mem] at whole
    omega
  · intro even name
    have twice := UnitExpr.total_halves even name
    omega

end Factor

namespace UnitExpr
open Factor (total Normal normalize half)

variable {u v w h : UnitExpr}

/-- A root is the root of the normal form. -/
theorem halve?_eq_some : u.halve? = some h ↔
    ∃ us, normalize u.factors = .ok us ∧ (∀ f ∈ us, f.power.toInt % 2 = 0) ∧ h = ⟨us.map half⟩ := by
  cases form : normalize u.factors with
  | error e => simp [halve?, form, Except.toOption]
  | ok us =>
    have normal := Factor.normal_normalize form
    have same : u.halve? = halve? ⟨us⟩ := by rw [halve?, halve?, form, Factor.normalize_of_normal normal]
    rw [same, halve?_eq_some_iff normal]
    constructor
    · exact fun root => ⟨us, rfl, root⟩
    · rintro ⟨us', here, root⟩
      cases here
      exact root

theorem exists_halve?_iff :
    (∃ h, u.halve? = some h) ↔ (∃ us, normalize u.factors = .ok us) ∧ ∀ name, 2 ∣ total u.factors name := by
  constructor
  · rintro ⟨h, root⟩
    obtain ⟨us, form, even, -⟩ := halve?_eq_some.mp root
    exact ⟨⟨us, form⟩, (Factor.even_iff_of_normalize form).mpr even⟩
  · rintro ⟨⟨us, form⟩, even⟩
    exact ⟨_, halve?_eq_some.mpr ⟨us, form, (Factor.even_iff_of_normalize form).mp even, rfl⟩⟩

/-- The square of a root is the normal form. -/
theorem square_of_root (root : u.halve? = some h) :
    ∃ us, normalize u.factors = .ok us ∧ h.scale 2 = .ok ⟨us⟩ := by
  obtain ⟨us, form, even, rfl⟩ := halve?_eq_some.mp root
  refine ⟨us, form, ?_⟩
  rw [scale, Factor.mapPowers_half even]
  change (do return ⟨← normalize us⟩ : Except UnitError UnitExpr) = _
  rw [Factor.normalize_of_normal (Factor.normal_normalize form)]
  rfl

/-- The root of a square is the normal form. -/
theorem root_of_square (square : u.scale 2 = .ok w) :
    ∃ us, normalize u.factors = .ok us ∧ w.halve? = some ⟨us⟩ := by
  obtain ⟨doubled, multiplied, h⟩ := bind_eq_ok.mp square
  obtain ⟨ws, form, h⟩ := bind_eq_ok.mp h
  cases h
  obtain ⟨us, form'⟩ := Factor.exists_normalize_of_doubled multiplied form
  obtain ⟨twice, names⟩ := Factor.mapPowers_multiply_eq_ok multiplied
  have twice (name : String) : total doubled name = 2 * total u.factors name := twice name
  have normal := Factor.normal_normalize form
  have even : ∀ f ∈ ws, f.power.toInt % 2 = 0 := by
    rw [← Factor.even_iff_of_normalize form]
    exact fun name => ⟨_, twice name⟩
  have same : ws.map half = us := by
    apply Factor.eq_of_map_name (Factor.normal_normalize form').distinct
    · rw [Factor.map_name_half, Factor.map_name_normalize form, Factor.map_name_normalize form', names]
      apply List.filter_congr
      intro name _
      rw [twice, decide_eq_decide]
      omega
    · funext name
      have halved : 2 * total (ws.map half) name = total ws name := total_halves even name
      rw [Factor.total_normalize form, twice] at halved
      rw [Factor.total_normalize form']
      omega
  exact ⟨us, form', (halve?_eq_some_iff normal).mpr ⟨even, by rw [← same]; rfl⟩⟩

/-- The laws of powers and roots, up to the order of the factors and whenever the results exist. Powers of powers
multiply, and powers distribute over products. A unit has a root just if it has a normal form and every sum of its
powers is even. The square of the root always exists and is the unit again, and the root of a square is exactly the
normal form. -/
theorem power_laws (u v : UnitExpr) :
    (∀ m n k x y z, k.toInt = m.toInt * n.toInt → u.scale m = .ok x → x.scale n = .ok y → u.scale k = .ok z →
      y.sameFactors z = .ok true) ∧
    (∀ n p q x y z, u.multiply v = .ok p → p.scale n = .ok q → u.scale n = .ok x → v.scale n = .ok y →
      x.multiply y = .ok z → q.sameFactors z = .ok true) ∧
    ((∃ h, u.halve? = some h) ↔ (∃ us, normalize u.factors = .ok us) ∧ ∀ name, 2 ∣ total u.factors name) ∧
    (∀ h, u.halve? = some h → ∃ w, h.scale 2 = .ok w ∧ w.sameFactors u = .ok true) ∧
    (∀ w, u.scale 2 = .ok w → ∃ us, normalize u.factors = .ok us ∧ w.halve? = some ⟨us⟩) := by
  have agree {x y : UnitExpr} (hx : Normal x.factors) (hy : Normal y.factors)
      (same : total x.factors = total y.factors) : x.sameFactors y = .ok true :=
    sameFactors_of_total hx (Factor.normalize_of_normal hy) same
  refine ⟨?powers, ?products, exists_halve?_iff, ?square, fun w => root_of_square⟩
  case powers =>
    intro m n k x y z product hx hy hz
    obtain ⟨timesM, -, -⟩ := scale_eq_ok hx
    obtain ⟨timesN, normalY, -⟩ := scale_eq_ok hy
    obtain ⟨timesK, normalZ, -⟩ := scale_eq_ok hz
    apply agree normalY normalZ
    funext name
    rw [timesN, timesM, timesK, product]
    ring
  case products =>
    intro n p q x y z hp hq hx hy hz
    obtain ⟨sumP, -, -⟩ := multiply_eq_ok hp
    obtain ⟨timesP, normalQ, -⟩ := scale_eq_ok hq
    obtain ⟨timesU, -, -⟩ := scale_eq_ok hx
    obtain ⟨timesV, -, -⟩ := scale_eq_ok hy
    obtain ⟨sumZ, normalZ, -⟩ := multiply_eq_ok hz
    apply agree normalQ normalZ
    funext name
    rw [timesP, sumP, sumZ, Pi.add_apply, Pi.add_apply, timesU, timesV]
    ring
  case square =>
    intro h root
    obtain ⟨us, form, square⟩ := square_of_root root
    exact ⟨⟨us⟩, square, sameFactors_of_total (Factor.normal_normalize form) form (Factor.total_normalize form)⟩

/-- A root of powers that are odd one by one and even together, one of them negative. -/
theorem power_laws_area :
    let area : UnitExpr := ⟨[⟨"m", 5⟩, ⟨"s", 0⟩, ⟨"kg", -6⟩, ⟨"m", -3⟩]⟩
    let rate : UnitExpr := ⟨[⟨"s", -1⟩, ⟨"kg", 1⟩]⟩
    area.scale (-3) = .ok ⟨[⟨"m", -6⟩, ⟨"kg", 18⟩]⟩ ∧
      area.multiply rate = .ok ⟨[⟨"m", 2⟩, ⟨"kg", -5⟩, ⟨"s", -1⟩]⟩ ∧
      (⟨[⟨"m", 12⟩, ⟨"kg", -36⟩]⟩ : UnitExpr).sameFactors ⟨[⟨"m", 12⟩, ⟨"kg", -36⟩]⟩ = .ok true ∧
      (⟨[⟨"m", -6⟩, ⟨"kg", 15⟩, ⟨"s", 3⟩]⟩ : UnitExpr).sameFactors ⟨[⟨"m", -6⟩, ⟨"kg", 15⟩, ⟨"s", 3⟩]⟩ = .ok true ∧
      area.halve? = some ⟨[⟨"m", 1⟩, ⟨"kg", -3⟩]⟩ ∧ (∀ name, 2 ∣ total area.factors name) ∧
      (∃ w, (⟨[⟨"m", 1⟩, ⟨"kg", -3⟩]⟩ : UnitExpr).scale 2 = .ok w ∧ w.sameFactors area = .ok true) ∧
      ∃ us, normalize area.factors = .ok us ∧ (⟨[⟨"m", 4⟩, ⟨"kg", -12⟩]⟩ : UnitExpr).halve? = some ⟨us⟩ := by
  intro area rate
  obtain ⟨powers, products, root, square, unsquare⟩ := power_laws area rate
  have halved : area.halve? = some ⟨[⟨"m", 1⟩, ⟨"kg", -3⟩]⟩ := rfl
  exact ⟨rfl, rfl, powers (-3) (-2) 6 _ _ _ rfl rfl rfl rfl, products (-3) _ _ _ _ _ rfl rfl rfl rfl rfl, halved,
    (root.mp ⟨_, halved⟩).2, square _ halved, unsquare _ rfl⟩

end UnitExpr

end Mensura
