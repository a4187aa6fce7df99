/-!
# Scrawl.Text.Blank — white space and stripping

White space is Unicode's, with the four ASCII information separators included.  Stripping removes it
at both ends.
-/

namespace Scrawl.Text

/-- The white space characters. -/
def isBlank (c : Char) : Bool :=
  let n := c.toNat
  (0x09 ≤ n && n ≤ 0x0D) || (0x1C ≤ n && n ≤ 0x20) || n == 0x85 || n == 0xA0 || n == 0x1680 ||
    (0x2000 ≤ n && n ≤ 0x200A) || n == 0x2028 || n == 0x2029 || n == 0x202F || n == 0x205F ||
    n == 0x3000

/-- Removes at both ends the characters that satisfy `p`. -/
def stripChars (p : Char → Bool) (cs : List Char) : List Char :=
  ((cs.dropWhile p).reverse.dropWhile p).reverse

/-- Removes white space at both ends. -/
def strip (s : String) : String := String.ofList (stripChars isBlank s.toList)

end Scrawl.Text
