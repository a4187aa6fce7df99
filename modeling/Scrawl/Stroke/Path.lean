import Scrawl.Scalar
/-!
# Scrawl.Stroke.Path — the steps of a pen

A path is a list of moves, straight lines, cubic curves and closings.  `catmullRom` is the smooth
path through all but the outer two of its points, which only shape the ends.
-/

namespace Scrawl.Stroke

/-- A step of a pen. -/
inductive Step (α : Type)
  | move (target : Point α)
  | line (target : Point α)
  /-- A cubic curve with its two control points. -/
  | cubic (control₁ control₂ target : Point α)
  | close

/-- A path: the steps in order. -/
abbrev Path (α : Type) := List (Step α)

/-- The points of a step, in the order in which they are written. -/
def Step.points {α : Type} : Step α → List (Point α)
  | move p => [p]
  | line p => [p]
  | cubic c d p => [c, d, p]
  | close => []

variable {α : Type} [Scalar α]

/-- The curve from `b` to `c` between the neighbours `a` and `d`. -/
def catmullStep (a b c d : Point α) : Step α :=
  .cubic ⟨b.x + (c.x - a.x) / 6.0, b.y + (c.y - a.y) / 6.0⟩
    ⟨c.x + (b.x - d.x) / 6.0, c.y + (b.y - d.y) / 6.0⟩ c

/-- The curves through the inner points. -/
def catmullSteps : List (Point α) → Path α
  | a :: b :: c :: d :: rest => catmullStep a b c d :: catmullSteps (b :: c :: d :: rest)
  | _ => []

/-- The smooth path from the second to the last but one of the points. -/
def catmullRom (points : List (Point α)) : Path α :=
  match points with
  | _ :: b :: _ => .move b :: catmullSteps points
  | _ => []

end Scrawl.Stroke
