import Scrawl.Decimal.Fixed
import Scrawl.Text.Blank
import Scrawl.Text.Digit
/-!
# Scrawl.Decimal.Numeral — numbers read from text

A numeral may stand between blanks and use the digits of any script; a single underscore may stand
between two digits.  A decimal numeral has an optional sign, digits with an optional point among
them, and an optional exponent; `inf`, `infinity` and `nan` in any case are numerals, too.  A whole
numeral has at most 4300 digits.

`readFloat?` gives the double nearest to the numeral's exact value; `readNumber?` gives a number of any
kind that numerals stand for.
-/

namespace Scrawl.Decimal

open Scrawl.Text

/-- The blanks that may stand around a numeral: white space without the information separators. -/
def isNumeralBlank (c : Char) : Bool :=
  isBlank c && !(0x1C ≤ c.toNat && c.toNat ≤ 0x1F)

/-- Writes a digit of any script as an ASCII digit. -/
def plainDigit (c : Char) : Char :=
  match digitValue? c with
  | some v => Char.ofNat (0x30 + v)
  | none => c

/-- A numeral without its blanks and in ASCII digits. -/
def plainNumeral (s : String) : List Char :=
  (stripChars isNumeralBlank s.toList).map plainDigit

/-- Removes underscores, refusing one that does not stand between two digits; `afterDigit` says
whether the character before was a digit. -/
def dropUnderscores (afterDigit : Bool) : List Char → Option (List Char)
  | [] => some []
  | '_' :: c :: rest =>
    if afterDigit && c.isDigit then (dropUnderscores true rest).map (c :: ·) else none
  | c :: rest => if c == '_' then none else (dropUnderscores c.isDigit rest).map (c :: ·)

/-- Takes a sign off. -/
def takeSign : List Char → Bool × List Char
  | '-' :: rest => (true, rest)
  | '+' :: rest => (false, rest)
  | cs => (false, cs)

/-- The value of ASCII digits. -/
def digitsValue (digits : List Char) : Nat :=
  digits.foldl (fun n c => 10 * n + (c.toNat - 0x30)) 0

/-- A number as it is written. -/
inductive Numeral
  | nan
  | infinite (negative : Bool)
  /-- The number `±digits · 10^place`. -/
  | decimal (negative : Bool) (digits : Nat) (place : Int)
  deriving DecidableEq

namespace Numeral

/-- Reads an exponent, which may be missing. -/
def readExponent? : List Char → Option Int
  | [] => some 0
  | c :: rest =>
    let (negative, digits) := takeSign rest
    if (c == 'e' || c == 'E') && !digits.isEmpty && digits.all Char.isDigit then
      some (if negative then -(digitsValue digits : Int) else digitsValue digits)
    else none

/-- Reads a number without its sign. -/
def readUnsigned? (negative : Bool) (cs : List Char) : Option Numeral :=
  let word := cs.map Char.toLower
  if word == "inf".toList || word == "infinity".toList then some (.infinite negative)
  else if word == "nan".toList then some .nan
  else
    let whole := cs.takeWhile Char.isDigit
    let rest := cs.dropWhile Char.isDigit
    let (part, tail) :=
      match rest with
      | '.' :: more => (more.takeWhile Char.isDigit, more.dropWhile Char.isDigit)
      | _ => ([], rest)
    if whole.isEmpty && part.isEmpty then none
    else (readExponent? tail).map fun e =>
      .decimal negative (digitsValue (whole ++ part)) (e - part.length)

/-- Reads a numeral. -/
def read? (s : String) : Option Numeral :=
  (dropUnderscores false (plainNumeral s)).bind fun cs =>
    let (negative, rest) := takeSign cs
    readUnsigned? negative rest

/-- The double nearest to the numeral. -/
def toBinary : Numeral → Binary
  | nan => .nan
  | infinite negative => .infinite negative
  | decimal negative digits place =>
    let size := (natDigits digits).length + place
    if digits == 0 || size < -400 then .finite negative 0 Binary.minExponent
    else if 400 < size then .infinite negative
    else .ofRatio negative (digits * pow10 place.toNat) (pow10 (-place).toNat)

end Numeral

/-- Numbers that numerals may stand for. -/
class OfNumeral (α : Type) where
  ofNumeral? : Numeral → Option α

instance : OfNumeral Float where
  ofNumeral? n := some n.toBinary.toFloat

/-- The number a text stands for, if it is a numeral that stands for one. -/
def readNumber? {α : Type} [OfNumeral α] (s : String) : Option α :=
  (Numeral.read? s).bind OfNumeral.ofNumeral?

/-- The double a text stands for, if it is a numeral. -/
def readFloat? (s : String) : Option Float := readNumber? s

/-- The most digits a whole numeral may have. -/
def maxWholeDigits : Nat := 4300

/-- The whole number a text stands for, if it is a whole numeral. -/
def readInt? (s : String) : Option Int :=
  let (negative, rest) := takeSign (plainNumeral s)
  match dropUnderscores false rest with
  | some digits =>
    if !digits.isEmpty && digits.all Char.isDigit && digits.length ≤ maxWholeDigits then
      some (if negative then -(digitsValue digits : Int) else digitsValue digits)
    else none
  | none => none

end Scrawl.Decimal
