import Scrawl.Graph
/-!
# Scrawl.Layered.Route — the points of an edge

A route runs from the border of the source box over its middle points to the border of the target
box.  An edge that passes through ranks has its stops there as middle points; any other edge has
one, halfway between the centres.  Parallel edges between the same two nodes bow apart: their middle
points stand on the perpendicular, half a node gap from one to the next.  A loop leaves and enters
on the right side of its box.
-/

namespace Scrawl.Layered

variable {α : Type} [Scalar α]

/-- A box by its centre and size. -/
structure Placed (α : Type) where
  center : Point α
  width : α
  height : α

/-- How far a loop stands out from its box. -/
def loopSize : α := 20.0

/-- Where the line from the centre towards `toward` leaves the box; the centre if that is the same
point. -/
def borderPoint (p : Placed α) (toward : Point α) : Point α :=
  let dx := toward.x - p.center.x
  let dy := toward.y - p.center.y
  if dx == 0.0 && dy == 0.0 then p.center
  else
    let toSide := p.width / 2.0 / Scalar.abs dx
    let toTop := p.height / 2.0 / Scalar.abs dy
    let scale :=
      if dx == 0.0 then Scalar.saturate toTop
      else if dy == 0.0 then toSide
      else Scalar.min toSide toTop
    ⟨p.center.x + dx * scale, p.center.y + dy * scale⟩

/-- The route of a loop. -/
def loopRoute (b : Box α) : List (Point α) :=
  let quarter := (b.bottom - b.top) / 4.0
  let middle := (b.top + b.bottom) / 2.0
  [⟨b.right, middle - quarter⟩,
   ⟨b.right + loopSize, middle - quarter - loopSize / 2.0⟩,
   ⟨b.right + loopSize, middle + quarter + loopSize / 2.0⟩,
   ⟨b.right, middle + quarter⟩]

/-- The point halfway between two points. -/
def midpoint (a b : Point α) : Point α := ⟨(a.x + b.x) / 2.0, (a.y + b.y) / 2.0⟩

/-- The distance of the `slot`-th of `count` parallel edges from the line through the centres. -/
def bend (gap : α) (slot count : Nat) : α :=
  (Scalar.ofNat slot - Scalar.ofNat (count - 1) / 2.0) * gap / 2.0

/-- Moves a point by `distance` along the perpendicular of the line from `a` to `b`. -/
def aside (a b : Point α) (distance : α) (p : Point α) : Point α :=
  let dx := b.x - a.x
  let dy := b.y - a.y
  let length := Scalar.hypot dx dy
  let length := if length == 0.0 then 1.0 else length
  ⟨p.x - dy / length * distance, p.y + dx / length * distance⟩

/-- The place of an edge among those that join the same two nodes, in either direction. -/
structure Share where
  slot : Nat
  count : Nat

/-- The middle point of an edge between neighbouring ranks.  The perpendicular is that of the two
nodes in the order of their ids, so that the two directions bow apart. -/
def directMiddle (gap : α) (share : Share) (source target : Placed α) (inOrder : Bool) : Point α :=
  let mid := midpoint source.center target.center
  if 1 < share.count then
    let d := bend gap share.slot share.count
    if inOrder then aside source.center target.center d mid
    else aside target.center source.center d mid
  else mid

/-- The route over middle points. -/
def routeOver (source target : Placed α) (first : Point α) (rest : List (Point α)) :
    List (Point α) :=
  let last := (first :: rest).getLastD first
  borderPoint source first :: first :: (rest ++ [borderPoint target last])

/-- Whether an edge joins the two ends of `e`, in either direction. -/
def joinsSame (e f : Edge α) : Bool :=
  (e.source == f.source && e.target == f.target) || (e.source == f.target && e.target == f.source)

/-- The share of the edge `e`, given the edges before it and all edges. -/
def shareOf (earlier all : List (Edge α)) (e : Edge α) : Share :=
  ⟨earlier.countP (joinsSame e), all.countP (joinsSame e)⟩

end Scrawl.Layered
