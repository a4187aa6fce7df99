import Scrawl.Decimal.Fixed
import Scrawl.Scalar
/-!
# Scrawl.Svg.Number — numbers in a drawing

A number is written with at most three decimal places and no zeros at the end of them.  A number
within a billionth of a whole one, absolutely or relative to its size, is written as that whole
number.
-/

namespace Scrawl.Svg

open Scrawl.Decimal

/-- The double nearest to a billionth, `mantissa · 2 ^ exponent`. -/
def tolerance : Nat × Int := (4835703278458517, -82)

/-- Whether `num / den` is at most the double nearest to `tolerance · size`. -/
def withinShare (num den sizeNum sizeDen : Nat) : Bool :=
  let t := Binary.ofRatio false (tolerance.1 * sizeNum) (pow2 (-tolerance.2).toNat * sizeDen)
  match t with
  | .finite _ m e => num * pow2 (-e).toNat ≤ m * pow2 e.toNat * den
  | _ => true

/-- Whether the number `num / den` counts as the whole number `whole`. -/
def isWhole (num den whole : Nat) : Bool :=
  let gap := max num (whole * den) - min num (whole * den)
  withinShare gap den (max num (whole * den)) den || withinShare gap den 1 1

/-- Removes the zeros at the end of the decimal places, and a point with nothing behind it. -/
def trimPlaces (cs : List Char) : List Char :=
  let kept := cs.reverse.dropWhile (· == '0')
  (if kept.head? == some '.' then kept.drop 1 else kept).reverse

/-- The text of `±mantissa · 2 ^ exponent`. -/
def numberChars (negative : Bool) (mantissa : Nat) (exponent : Int) : List Char :=
  let num := mantissa * pow2 exponent.toNat
  let den := pow2 (-exponent).toNat
  let whole := Binary.divNearest num den
  if isWhole num den whole then signChars (negative && whole != 0) ++ natDigits whole
  else trimPlaces (fixedChars 3 (.finite negative mantissa exponent))

/-- The text of a value; the two that are not finite have none of their own. -/
def valueChars : Binary → List Char
  | .finite negative m e => numberChars negative m e
  | b => fixedChars 3 b

/-- The text of a double. -/
def number (x : Float) : String := String.ofList (valueChars (.ofFloat x))

/-- The text of a double, or why it cannot be written. -/
def number? (x : Float) : Except NumberFault String :=
  match doubleWriteFault? x with
  | some fault => .error fault
  | none => .ok (number x)

end Scrawl.Svg
