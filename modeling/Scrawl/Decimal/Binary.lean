/-!
# Scrawl.Decimal.Binary — doubles as exact numbers

`Binary` is what a double stands for: a signed whole number times a power of two, an infinity, or no
number.  `ofFloat` and `toFloat` read and write the bits.  `ofRatio` rounds a quotient of natural
numbers to the nearest double, a tie going to the even mantissa, and `hypot` is the exact Euclidean
length rounded once.
-/

namespace Scrawl.Decimal

/-- The value of a double. -/
inductive Binary
  | nan
  | infinite (negative : Bool)
  /-- The number `±mantissa · 2^exponent`. -/
  | finite (negative : Bool) (mantissa : Nat) (exponent : Int)
  deriving DecidableEq

/-- A power of two. -/
def pow2 (n : Nat) : Nat := Nat.pow 2 n

/-- A power of ten. -/
def pow10 (n : Nat) : Nat := Nat.pow 10 n

namespace Binary

/-- The least exponent of a double. -/
def minExponent : Int := -1074

/-- The largest exponent of a double. -/
def maxExponent : Int := 971

/-- Decodes the bits of a double. -/
def ofFloat (x : Float) : Binary :=
  let bits := x.toBits.toNat
  let negative := bits / pow2 63 == 1
  let field : Nat := bits / pow2 52 % 2048
  let fraction := bits % pow2 52
  if field == 2047 then
    if fraction == 0 then .infinite negative else .nan
  else if field == 0 then .finite negative fraction minExponent
  else .finite negative (fraction + pow2 52) ((field : Int) - 1075)

/-- The bits of a number whose mantissa is below `2 ^ 53` and, unless the exponent is least, not
below `2 ^ 52`. -/
def bits : Binary → Nat
  | nan => 0x7ff8000000000000
  | infinite negative => (if negative then pow2 63 else 0) + 2047 * pow2 52
  | finite negative mantissa exponent =>
    (if negative then pow2 63 else 0) +
      (if mantissa < pow2 52 then mantissa
       else (exponent + 1075).toNat * pow2 52 + (mantissa - pow2 52))

/-- The double of a value in the range of doubles. -/
def toFloat (b : Binary) : Float := Float.ofBits (UInt64.ofNat b.bits)

/-- The quotient `num / den` rounded to the nearest whole number, a half going to the even one. -/
def divNearest (num den : Nat) : Nat :=
  let q := num / den
  let r := num % den
  if den < 2 * r || (2 * r == den && q % 2 == 1) then q + 1 else q

/-- Scales the quotient `num / den` by `2 ^ (-e)`. -/
def scaled (num den : Nat) (e : Int) : Nat × Nat :=
  (num * pow2 (-e).toNat, den * pow2 e.toNat)

/-- The double nearest to `num / den`, for a positive `den`. -/
def ofRatio (negative : Bool) (num den : Nat) : Binary :=
  if num == 0 then .finite negative 0 minExponent
  else
    let low : Int := max ((num.log2 : Int) - den.log2 - 53) minExponent
    let s := scaled num den low
    let e := if s.1 / s.2 < pow2 53 then low else low + 1
    let t := scaled num den e
    let m := divNearest t.1 t.2
    let r : Nat × Int := if m < pow2 53 then (m, e) else (pow2 52, e + 1)
    if maxExponent < r.2 then .infinite negative else .finite negative r.1 r.2

/-- One step of Newton's method for the square root of `n`, from above. -/
def sqrtFrom (n : Nat) : Nat → Nat → Nat
  | 0, x => x
  | fuel + 1, x =>
    let y := (x + n / x) / 2
    if y < x then sqrtFrom n fuel y else x

/-- The whole part of the square root. -/
def natSqrt (n : Nat) : Nat :=
  if n == 0 then 0 else sqrtFrom n (n.log2 + 2) (pow2 (n.log2 / 2 + 1))

/-- The double nearest to the square root of `n · 4 ^ e`. -/
def sqrtOf (n : Nat) (e : Int) : Binary :=
  let shift : Nat := 64
  let shifted := n * pow2 (2 * shift)
  let s := natSqrt shifted
  -- An odd last bit marks a root that is not whole, so that no false tie arises.
  let marked := 2 * s + (if s * s == shifted then 0 else 1)
  let down : Int := e - shift - 1
  ofRatio false (marked * pow2 down.toNat) (pow2 (-down).toNat)

/-- The Euclidean length of `(a, b)`, rounded once; infinite as soon as one side is. -/
def hypot : Binary → Binary → Binary
  | infinite _, _ => infinite false
  | _, infinite _ => infinite false
  | nan, _ => nan
  | _, nan => nan
  | finite _ m e, finite _ k f =>
    let low := min e f
    let a := m * pow2 (e - low).toNat
    let b := k * pow2 (f - low).toNat
    sqrtOf (a * a + b * b) low

end Binary

/-- The Euclidean length of `(x, y)`. -/
def hypot (x y : Float) : Float := (Binary.hypot (.ofFloat x) (.ofFloat y)).toFloat

end Scrawl.Decimal
