import Scrawl.Decimal.Binary
/-!
# Scrawl.Decimal.Fixed — numbers with a fixed count of decimal places

The exact value is rounded to the places, a half going to the even digit, and written without an
exponent.  A negative number keeps its sign even where every digit is zero.
-/

namespace Scrawl.Decimal

/-- The decimal digits of a natural number. -/
def natDigits (n : Nat) : List Char := Nat.toDigits 10 n

/-- `n` with a point before its last `places` digits. -/
def placePoint (places n : Nat) : List Char :=
  let whole := natDigits (n / pow10 places)
  if places == 0 then whole
  else
    let part := natDigits (n % pow10 places)
    whole ++ '.' :: (List.replicate (places - part.length) '0' ++ part)

/-- The nearest whole number to `mantissa · 2 ^ exponent · 10 ^ places`. -/
def scaledNearest (places mantissa : Nat) (exponent : Int) : Nat :=
  Binary.divNearest (mantissa * pow10 places * pow2 exponent.toNat) (pow2 (-exponent).toNat)

/-- The sign of a number in text. -/
def signChars (negative : Bool) : List Char := if negative then ['-'] else []

/-- The value with `places` decimal places. -/
def fixedChars (places : Nat) : Binary → List Char
  | .nan => "nan".toList
  | .infinite negative => signChars negative ++ "inf".toList
  | .finite negative m e => signChars negative ++ placePoint places (scaledNearest places m e)

/-- The double with `places` decimal places. -/
def fixed (places : Nat) (x : Float) : String := String.ofList (fixedChars places (.ofFloat x))

/-- Numbers that are written with a fixed count of decimal places. -/
class ToFixed (α : Type) where
  toFixed : Nat → α → String

instance : ToFixed Float := ⟨fixed⟩

end Scrawl.Decimal
