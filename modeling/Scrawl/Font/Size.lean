import Scrawl.Decimal.Binary
import Scrawl.Scalar
/-!
# Scrawl.Font.Size — the whole size at which a font is loaded

A font is loaded at the whole number nearest to the font size, a half going to the even one, and at
one at least.
-/

namespace Scrawl.Font

open Decimal

/-- The whole number nearest to a value. -/
def wholeOf : Binary → Except NumberFault Int
  | .nan => .error .nan
  | .infinite _ => .error .infinite
  | .finite negative m e =>
    let n := Binary.divNearest (m * pow2 e.toNat) (pow2 (-e).toNat)
    .ok (if negative then -(n : Int) else n)

/-- The size at which a font is loaded. -/
def loadSize (fontSize : Float) : Except NumberFault Int :=
  (wholeOf (.ofFloat fontSize)).map (max 1)

end Scrawl.Font
