import Scrawl.Decimal.Fixed
/-!
# Scrawl.Decimal.Shortest — the fewest digits that read back

Of the decimals that round to a double, the shortest is chosen, and of those the nearest.  It is
written positionally from 0.0001 up to below 10^16, with at least one decimal place, and with an
exponent of at least two digits elsewhere.
-/

namespace Scrawl.Decimal

/-- The reals that round to `mantissa · 2 ^ exponent`, as numerators over the denominator
`2 ^ (2 - exponent)` (numerators scaled up where that is not whole). -/
structure Rounding where
  value : Nat
  low : Nat
  high : Nat
  /-- The common denominator. -/
  denominator : Nat
  /-- Whether the two ends round to the number, too. -/
  closed : Bool

/-- The interval of a positive number. -/
def Rounding.of (mantissa : Nat) (exponent : Int) : Rounding :=
  let up := pow2 (exponent - 2).toNat
  let narrow := mantissa == pow2 52 && Binary.minExponent < exponent
  { value := 4 * mantissa * up
    low := (4 * mantissa - if narrow then 1 else 2) * up
    high := (4 * mantissa + 2) * up
    denominator := pow2 (2 - exponent).toNat
    closed := mantissa % 2 == 0 }

/-- Whether the decimal `digits · 10 ^ place` rounds to the number. -/
def Rounding.holds (r : Rounding) (digits : Nat) (place : Int) : Bool :=
  let d := digits * pow10 place.toNat * r.denominator
  let low := r.low * pow10 (-place).toNat
  let high := r.high * pow10 (-place).toNat
  if r.closed then low ≤ d && d ≤ high else low < d && d < high

/-- The count of decimal digits of a positive natural number. -/
def digitCount (n : Nat) : Nat := (natDigits n).length

/-- The power `k` of ten with `10 ^ (k - 1) ≤ num / den < 10 ^ k`. -/
def decimalMagnitude (num den : Nat) : Int :=
  if den ≤ num then digitCount (num / den)
  else
    -- The first `j` for which `num * 10 ^ j` reaches the denominator, found from its digit count.
    let j := digitCount (den / num) - 1
    if den ≤ num * pow10 j then 1 - (j : Int) else -(j : Int)

/-- The nearest decimal with `count` digits that reads back, if one does. -/
def Rounding.withDigits? (r : Rounding) (magnitude : Int) (count : Nat) : Option (Nat × Int) :=
  let place := magnitude - count
  let num := r.value * pow10 (-place).toNat
  let den := r.denominator * pow10 place.toNat
  let below := num / den
  let nearest := Binary.divNearest num den
  let other := if nearest == below then below + 1 else below
  if r.holds nearest place then some (nearest, place)
  else if r.holds other place then some (other, place)
  else none

/-- The shortest decimal `digits · 10 ^ place` of a positive number. -/
def shortestDecimal (mantissa : Nat) (exponent : Int) : Nat × Int :=
  let r := Rounding.of mantissa exponent
  let magnitude := decimalMagnitude r.value r.denominator
  match (List.range 17).findSome? (fun n => r.withDigits? magnitude (n + 1)) with
  | some d => d
  | none => (mantissa, 0)

/-- Removes the zeros at the end of a list of digits. -/
def dropZeros (digits : List Char) : List Char :=
  (digits.reverse.dropWhile (· == '0')).reverse

/-- Writes `0.d₁d₂… · 10 ^ point`. -/
def writeDigits (digits : List Char) (point : Int) : List Char :=
  if -4 < point && point ≤ 16 then
    if point ≤ 0 then "0.".toList ++ List.replicate (-point).toNat '0' ++ digits
    else
      let n := point.toNat
      if digits.length ≤ n then digits ++ List.replicate (n - digits.length) '0' ++ ".0".toList
      else digits.take n ++ '.' :: digits.drop n
  else
    let e := point - 1
    let size := natDigits e.natAbs
    digits.take 1 ++ (if digits.length ≤ 1 then [] else '.' :: digits.drop 1) ++
      ['e', if e < 0 then '-' else '+'] ++ List.replicate (2 - size.length) '0' ++ size

/-- The shortest text of a value. -/
def shortestChars : Binary → List Char
  | .nan => "nan".toList
  | .infinite negative => signChars negative ++ "inf".toList
  | .finite negative m e =>
    signChars negative ++
      if m == 0 then "0.0".toList
      else
        let d := shortestDecimal m e
        let digits := natDigits d.1
        writeDigits (dropZeros digits) (digits.length + d.2)

/-- The shortest text that reads back as the double. -/
def shortest (x : Float) : String := String.ofList (shortestChars (.ofFloat x))

end Scrawl.Decimal
