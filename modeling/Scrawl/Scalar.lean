import Scrawl.Decimal.Binary
/-!
# Scrawl.Scalar — the numbers that geometry is computed with

Layout, strokes and label sizes are written once, over a `Scalar`: the four operations, order,
absolute value, square, square root and Euclidean length.  Doubles are the scalars that run.  An
exact field is a scalar as well: there a square is a product and no number is out of range, so that
the three range questions (`saturate`, `squareFault?`, `writeFault?`) have trivial answers.
-/

namespace Scrawl

/-- Why a number cannot be used. -/
inductive NumberFault
  /-- No number is to be written. -/
  | nan
  /-- An infinite number is to be written. -/
  | infinite
  /-- The square of a finite number is out of range. -/
  | square
  /-- A whole number is out of range. -/
  | whole
  deriving DecidableEq

/-- The wording of the fault. -/
def NumberFault.message : NumberFault → String
  | nan => "cannot convert float NaN to integer"
  | infinite => "cannot convert float infinity to integer"
  | square => "(34, 'Numerical result out of range')"
  | whole => "int too large to convert to float"

/-- Numbers to compute geometry with. -/
class Scalar (α : Type) extends
    Add α, Sub α, Mul α, Div α, Neg α, LT α, LE α, BEq α, OfScientific α where
  decideLT : (a b : α) → Decidable (a < b)
  decideLE : (a b : α) → Decidable (a ≤ b)
  ofInt : Int → α
  abs : α → α
  square : α → α
  sqrt : α → α
  /-- The Euclidean length of a vector. -/
  hypot : α → α → α
  /-- The number where it lies below the top of the range, else the top. -/
  saturate : α → α
  /-- What stands in the way of squaring the number. -/
  squareFault? : α → Option NumberFault
  /-- What stands in the way of writing the number. -/
  writeFault? : α → Option NumberFault

namespace Scalar

variable {α : Type} [Scalar α]

instance (a b : α) : Decidable (a < b) := Scalar.decideLT a b

instance (a b : α) : Decidable (a ≤ b) := Scalar.decideLE a b

/-- A natural number as a scalar. -/
def ofNat (n : Nat) : α := ofInt n

/-- The smaller of two numbers, the first one if they are equal or do not compare. -/
def min (a b : α) : α := if b < a then b else a

/-- The larger of two numbers, the first one if they are equal or do not compare. -/
def max (a b : α) : α := if a < b then b else a

/-- The least of the numbers, the first such, with `a` in front. -/
def least (a : α) (rest : List α) : α := rest.foldl min a

/-- The largest of the numbers, the first such, with `a` in front. -/
def largest (a : α) (rest : List α) : α := rest.foldl max a

/-- The largest of the numbers, zero if there is none. -/
def largestOrZero : List α → α
  | [] => 0.0
  | a :: rest => largest a rest

/-- The sum from left to right, from zero. -/
def sum (xs : List α) : α := xs.foldl (· + ·) 0.0

end Scalar

/-- The fault of a double that is to be written. -/
def doubleWriteFault? (x : Float) : Option NumberFault :=
  if x.isNaN then some .nan else if x.isInf then some .infinite else none

/-- Whether the product of a double with itself is exact. -/
def isExactSquare (x product : Float) : Bool :=
  match Decimal.Binary.ofFloat x, Decimal.Binary.ofFloat product with
  | .finite _ m e, .finite _ n f => 2 * e ≤ f && n * Decimal.pow2 (f - 2 * e).toNat == m * m
  | _, _ => false

/-- The square of a double by the power function, which now and then is a neighbour of the product
rounded to nearest, but gives every square that is a double. -/
def doubleSquare (x : Float) : Float :=
  let product := x * x
  if isExactSquare x product then product else x.pow 2.0

instance : Scalar Float where
  decideLT := Float.decLt
  decideLE := Float.decLe
  ofInt := Float.ofInt
  abs := Float.abs
  square := doubleSquare
  sqrt := Float.sqrt
  hypot := Decimal.hypot
  saturate x := if x < 1.0 / 0.0 then x else 1.0 / 0.0
  squareFault? x := if x.isFinite && (doubleSquare x).isInf then some .square else none
  writeFault? := doubleWriteFault?

/-- A point of the plane; `y` grows downwards. -/
structure Point (α : Type) where
  x : α
  y : α
  deriving Repr

end Scrawl
