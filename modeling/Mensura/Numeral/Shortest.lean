/-!
The fewest decimal digits that identify a binary64 value. A value stands for every real number that rounds
to it, an interval around it. Among the decimals with one digit, then two, and so on, the first that lie in
the interval are found with exact arithmetic, and the nearest of them is taken, the upper one on a tie.
-/

namespace Mensura.Numeral

/-- The decimal number `digits · 10^exponent`. -/
structure Decimal where
  digits : Nat
  exponent : Int
  deriving DecidableEq, Repr

/-- Drops up to `n` zeros at the end of the digits, into the exponent. -/
def Decimal.trim : Nat → Decimal → Decimal
  | 0, d => d
  | n + 1, d =>
    if 0 < d.digits ∧ d.digits % 10 = 0 then trim n ⟨d.digits / 10, d.exponent + 1⟩ else d

/-- A fraction of natural numbers with a positive denominator. -/
structure Ratio where
  num : Nat
  den : Nat

namespace Ratio

/-- The number `n · base^exponent`. -/
def scaled (n base : Nat) (exponent : Int) : Ratio :=
  ⟨n * base.pow exponent.toNat, base.pow (-exponent).toNat⟩

def lt (a b : Ratio) : Bool := a.num * b.den < b.num * a.den

def le (a b : Ratio) : Bool := a.num * b.den ≤ b.num * a.den

def floor (a : Ratio) : Nat := a.num / a.den

def divide (a b : Ratio) : Ratio := ⟨a.num * b.den, a.den * b.num⟩

end Ratio

def Decimal.ratio (d : Decimal) : Ratio := .scaled d.digits 10 d.exponent

/-- A positive finite binary64 value `mantissa · 2^exponent`. Below a power of two the neighbour is half as
far away as above it, except at the bottom of the range. -/
structure Magnitude where
  mantissa : Nat
  exponent : Int
  atPowerOfTwo : Bool

namespace Magnitude

/-- The magnitude with the given bits, of which the sign is ignored. -/
def ofBits (bits : UInt64) : Magnitude :=
  let field : Nat := (bits.toNat / Nat.pow 2 52) % Nat.pow 2 11
  let fraction : Nat := bits.toNat % Nat.pow 2 52
  if field = 0 then ⟨fraction, -1074, false⟩
  else ⟨Nat.pow 2 52 + fraction, (field : Int) - 1075, fraction == 0 && 1 < field⟩

def ratio (x : Magnitude) : Ratio := .scaled x.mantissa 2 x.exponent

/-- The lower end of the interval of reals that round to `x`, counted in quarters of its last place. -/
def lower (x : Magnitude) : Ratio :=
  .scaled (4 * x.mantissa - if x.atPowerOfTwo then 1 else 2) 2 (x.exponent - 2)

/-- The upper end of the interval. -/
def upper (x : Magnitude) : Ratio := .scaled (4 * x.mantissa + 2) 2 (x.exponent - 2)

/-- Whether a decimal lies in the interval. The ends belong to it exactly when the mantissa is even. -/
def admits (x : Magnitude) (d : Decimal) : Bool :=
  if x.mantissa % 2 = 0 then x.lower.le d.ratio && d.ratio.le x.upper
  else x.lower.lt d.ratio && d.ratio.lt x.upper

/-- The least `k` with `x < 10^k`. Every value of the format is above `10^(-340)`. -/
def scale (x : Magnitude) : Int :=
  ((Nat.toDigits 10 (x.ratio.num * Nat.pow 10 340 / x.ratio.den)).length : Int) - 340

/-- The two decimals next to `x` among the multiples of `10^exponent`. -/
def neighbours (x : Magnitude) (exponent : Int) : Decimal × Decimal :=
  let below := (x.ratio.divide (.scaled 1 10 exponent)).floor
  (⟨below, exponent⟩, ⟨below + 1, exponent⟩)

/-- The nearest decimal of the interval among the multiples of `10^exponent`, the upper one on a tie. -/
def nearest? (x : Magnitude) (exponent : Int) : Option Decimal :=
  let (below, above) := x.neighbours exponent
  match x.admits below, x.admits above with
  | false, false => none
  | true, false => some below
  | false, true => some above
  | true, true =>
    let middle := Ratio.scaled (2 * below.digits + 1) 10 exponent
    if (Ratio.scaled (2 * x.mantissa) 2 x.exponent).lt middle then some below else some above

/-- All digits of the value itself. -/
def exact (x : Magnitude) : Decimal :=
  if 0 ≤ x.exponent then ⟨x.mantissa * Nat.pow 2 x.exponent.toNat, 0⟩
  else ⟨x.mantissa * Nat.pow 5 (-x.exponent).toNat, x.exponent⟩

/-- The shortest decimal of the interval. Seventeen digits always suffice for this format. The upper
neighbour of a value with one digit may be ten, which one digit can write as well. -/
def shortest (x : Magnitude) : Decimal :=
  let k := x.scale
  (((List.range 17).findSome? fun n : Nat => x.nearest? (k - (n + 1 : Nat))).getD x.exact).trim 17

end Magnitude

end Mensura.Numeral
