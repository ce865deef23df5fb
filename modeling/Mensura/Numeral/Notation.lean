import Mensura.Numeral.Shortest

/-!
How numbers are written. A floating-point value is shown by its shortest digits, either with all its places
written out, so that `1e21` has 22 digits and `3.0` is `3`, or in the marked form, which is never mistaken
for an integer and turns to an exponent for the very large and the very small.
-/

namespace Mensura.Numeral

/-- The decimal digits of a natural number. -/
def natural (n : Nat) : List Char := Nat.toDigits 10 n

/-- A decimal with all its places written out, and no point if it is whole. -/
def Decimal.positional (d : Decimal) : List Char :=
  let ds := natural d.digits
  if 0 ≤ d.exponent then ds ++ List.replicate d.exponent.toNat '0'
  else
    let places := (-d.exponent).toNat
    if places < ds.length then
      ds.take (ds.length - places) ++ '.' :: ds.drop (ds.length - places)
    else '0' :: '.' :: (List.replicate (places - ds.length) '0' ++ ds)

/-- A decimal as one digit, a point if more digits follow, and a power of ten. -/
def Decimal.scientific (d : Decimal) : List Char :=
  let ds := natural d.digits
  let exponent := d.exponent + ds.length - 1
  let head := match ds with
    | c :: d :: rest => c :: '.' :: d :: rest
    | ds => ds
  head ++ 'e' :: (if exponent < 0 then '-' :: natural (-exponent).toNat else natural exponent.toNat)

/-- Writes the sign and the special values, and leaves a positive finite magnitude to `write`. -/
def signed (write : Magnitude → List Char) (zero : List Char) (x : Float) : String :=
  if x.isNaN then "NaN"
  else
    let magnitude :=
      if x.isInf then "inf".toList
      else if x == 0 then zero
      else write (.ofBits x.toBits)
    String.ofList (if Nat.pow 2 63 ≤ x.toBits.toNat then '-' :: magnitude else magnitude)

/-- A value with all its places written out. -/
def plain (x : Float) : String := signed (fun m => m.shortest.positional) ['0'] x

/-- A value in the marked form: below `10^16` and from `10^(-4)` on with a point, else with an exponent. -/
def marked (x : Float) : String :=
  signed (fun m =>
      let d := m.shortest
      if (Ratio.scaled 1 10 16).le m.ratio || m.ratio.lt (.scaled 1 10 (-4)) then d.scientific
      else
        let text := d.positional
        if text.contains '.' then text else text ++ ['.', '0'])
    ['0', '.', '0'] x

/-- An integer, with a minus sign if it is negative. -/
def integer (n : Int) : String :=
  String.ofList (if n < 0 then '-' :: natural n.natAbs else natural n.natAbs)

end Mensura.Numeral
