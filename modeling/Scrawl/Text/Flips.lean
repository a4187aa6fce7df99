/-!
# Scrawl.Text.Flips — character classes as sorted lists of boundaries

A class of code points is stored as the increasing list of the code points where membership changes:
the first entry opens the first run of members, the second closes it, and so on.  `inFlips` reads
membership off the parity of the boundaries that are not above the character.
-/

namespace Scrawl.Text

/-- A character is in the class iff an odd number of boundaries lie at or below it. -/
def inFlips (flips : Array Nat) (c : Char) : Bool :=
  flips.countP (· ≤ c.toNat) % 2 == 1

end Scrawl.Text
