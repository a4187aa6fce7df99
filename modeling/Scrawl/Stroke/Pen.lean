import Scrawl.Decimal.Shortest
import Scrawl.Random.Source
import Scrawl.Stroke.Path
/-!
# Scrawl.Stroke.Pen — hand-drawn strokes

A segment is drawn twice, each time as one loose cubic: its ends and control points are displaced at
random, and the middle bows aside.  A curve is a smooth path through displaced points, drawn twice.
Every displacement is a multiple of the roughness of the pen.

A stroke takes its random numbers from a source in a fixed order and stops at the first number that
cannot be written; the source is then left where it was.
-/

namespace Scrawl.Stroke

/-- Why a stroke cannot be drawn. -/
inductive StrokeFault
  | number (fault : NumberFault)
  /-- A path of segments needs two points. -/
  | shortPath
  /-- A curve needs two points. -/
  | shortCurve
  /-- A filled outline needs a point. -/
  | noPoint
  deriving DecidableEq

/-- The wording of the fault. -/
def StrokeFault.message : StrokeFault → String
  | number fault => fault.message
  | shortPath => "a sketched path needs at least two points"
  | shortCurve => "a sketched curve needs at least two points"
  | noPoint => "list index out of range"

/-- A computation that draws from a source and may stop with a fault. -/
abbrev Sketch (σ β : Type) := ExceptT StrokeFault (StateM σ) β

/-- How a pen draws. -/
structure Pen (α : Type) where
  /-- The size of all displacements. -/
  roughness : α
  /-- How far segments bow. -/
  bowing : α
  /-- The largest displacement of an end, at roughness one. -/
  spread : α

/-- A pen, unless its roughness is negative. -/
def Pen.make? {α : Type} [Scalar α] (roughness bowing spread : α) : Option (Pen α) :=
  if roughness < 0.0 then none else some ⟨roughness, bowing, spread⟩

/-- The wording for a negative roughness. -/
def roughnessMessage (roughness : Float) : String :=
  "roughness must be >= 0 (got " ++ Decimal.shortest roughness ++ ")"

variable {σ α : Type} [Scalar α] [Source σ α]

/-- The next random number. -/
def draw : Sketch σ α := fun s => let (r, s) := Source.draw s; (.ok r, s)

/-- A number that is going to be written. -/
def written (a : α) : Sketch σ α :=
  match Scalar.writeFault? a with
  | some fault => throw (.number fault)
  | none => pure a

/-- A point that is going to be written. -/
def writtenPoint (p : Point α) : Sketch σ (Point α) := do
  return ⟨← written p.x, ← written p.y⟩

/-- A step that is going to be written. -/
def writtenStep : Step α → Sketch σ (Step α)
  | .move p => .move <$> writtenPoint p
  | .line p => .line <$> writtenPoint p
  | .cubic c d p => do return .cubic (← writtenPoint c) (← writtenPoint d) (← writtenPoint p)
  | .close => pure .close

/-- A path that is going to be written. -/
def writtenPath (path : Path α) : Sketch σ (Path α) := path.mapM writtenStep

/-- The square of a number, if it is in range. -/
def square (a : α) : Sketch σ α :=
  match Scalar.squareFault? a with
  | some fault => throw (.number fault)
  | none => pure (Scalar.square a)

namespace Pen

/-- A random displacement between `-reach` and `reach`, times the roughness and the gain. -/
def displacement (pen : Pen α) (reach gain : α) : Sketch σ α := do
  let r ← draw
  return pen.roughness * gain * (r * (reach - -reach) + -reach)

/-- How much displacements shrink on a segment of a length. -/
def gainOf (length : α) : α :=
  if length < 200.0 then 1.0
  else if 500.0 < length then 0.4
  else -0.0016668 * length + 1.233334

/-- A coordinate displaced and written. -/
def jittered (pen : Pen α) (reach gain base : α) : Sketch σ α := do
  written (base + (← pen.displacement reach gain))

/-- One loose cubic from `p` to `q`; the second of a pair (`overlay`) is displaced half as far. -/
def segment (pen : Pen α) (overlay : Bool) (p q : Point α) : Sketch σ (Path α) := do
  let lengthSq := (← square (p.x - q.x)) + (← square (p.y - q.y))
  let length := Scalar.sqrt lengthSq
  let gain := gainOf length
  let offset := if lengthSq < pen.spread * pen.spread * 100.0 then length / 10.0 else pen.spread
  let reach := if overlay then offset / 2.0 else offset
  let diverge := 0.2 + (← draw) * 0.2
  let midX ← pen.displacement (pen.bowing * pen.spread * (q.y - p.y) / 200.0) gain
  let midY ← pen.displacement (pen.bowing * pen.spread * (p.x - q.x) / 200.0) gain
  let jitter := pen.jittered reach gain
  let start : Point α := ⟨← jitter p.x, ← jitter p.y⟩
  let c : Point α :=
    ⟨← jitter (midX + p.x + (q.x - p.x) * diverge), ← jitter (midY + p.y + (q.y - p.y) * diverge)⟩
  let d : Point α :=
    ⟨← jitter (midX + p.x + 2.0 * (q.x - p.x) * diverge),
     ← jitter (midY + p.y + 2.0 * (q.y - p.y) * diverge)⟩
  let finish : Point α := ⟨← jitter q.x, ← jitter q.y⟩
  return [.move start, .cubic c d finish]

/-- A line: its segment drawn twice. -/
def line (pen : Pen α) (p q : Point α) : Sketch σ (Path α) := do
  return (← pen.segment false p q) ++ (← pen.segment true p q)

/-- The lines between neighbours of a list of points. -/
def lines (pen : Pen α) : List (Point α) → Sketch σ (Path α)
  | p :: q :: rest => do return (← pen.line p q) ++ (← pen.lines (q :: rest))
  | _ => return []

/-- A path of lines, back to its start if it is `closed`. -/
def linearPath (pen : Pen α) (points : List (Point α)) (closed : Bool) : Sketch σ (Path α) :=
  match points with
  | p :: q :: rest => do
    let path ← pen.lines (p :: q :: rest)
    if closed then return path ++ (← pen.line ((q :: rest).getLastD q) p) else return path
  | _ => throw .shortPath

/-- The corners of a rectangle. -/
def corners (x y width height : α) : List (Point α) :=
  [⟨x, y⟩, ⟨x + width, y⟩, ⟨x + width, y + height⟩, ⟨x, y + height⟩]

/-- A rectangle. -/
def rectangle (pen : Pen α) (x y width height : α) : Sketch σ (Path α) :=
  pen.linearPath (corners x y width height) true

/-- A point displaced on both axes. -/
def displaced (pen : Pen α) (reach : α) (p : Point α) : Sketch σ (Point α) := do
  return ⟨p.x + (← pen.displacement reach 1.0), p.y + (← pen.displacement reach 1.0)⟩

/-- A closed outline to be filled, through slightly displaced points. -/
def outline (pen : Pen α) (points : List (Point α)) : Sketch σ (Path α) := do
  match ← points.mapM (pen.displaced (pen.spread / 4.0)) with
  | [] => throw .noPoint
  | p :: rest => writtenPath (.move p :: rest.map .line ++ [.close])

/-- A smooth path through displaced points, the first and the last one doubled. -/
def smooth (pen : Pen α) (reach : α) (points : List (Point α)) : Sketch σ (Path α) := do
  let moved ← (points.take 1 ++ points ++ points.getLast?.toList).mapM (pen.displaced reach)
  writtenPath (catmullRom moved)

/-- A curve: two smooth paths through the points. -/
def curve (pen : Pen α) (points : List (Point α)) : Sketch σ (Path α) :=
  if points.length < 2 then throw .shortCurve
  else do
    let first ← pen.smooth (1.0 * (1.0 + pen.roughness * 0.2)) points
    let second ← pen.smooth (1.5 * (1.0 + pen.roughness * 0.22)) points
    return first ++ second

end Pen

end Scrawl.Stroke
