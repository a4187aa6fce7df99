import Scrawl.Graph
/-!
# Scrawl.Layered.Frame — moving a drawing to its margins

All boxes and route points are shifted by one vector so that the least coordinates become the
margins; the size of the graph is the extent of the drawing with a margin on either side.
-/

namespace Scrawl.Layered

variable {α : Type} [Scalar α]

/-- The values of a coordinate that the drawing covers: two sides of every box, then the points. -/
def covered (sides : Box α → List α) (coordinate : Point α → α) (g : Graph α) : List α :=
  (g.nodes.filterMap Node.box?).flatMap sides ++
    (g.edges.flatMap (·.points)).map coordinate

/-- The horizontal coordinates of the drawing. -/
def coveredX (g : Graph α) : List α := covered (fun b => [b.left, b.right]) (·.x) g

/-- The vertical coordinates of the drawing. -/
def coveredY (g : Graph α) : List α := covered (fun b => [b.top, b.bottom]) (·.y) g

/-- The shift that brings the least value to the margin, and the extent with both margins; for no
values no shift, and the margins alone. -/
def fit (margin : α) : List α → Option α × α
  | [] => (none, 2.0 * margin)
  | a :: rest =>
    let low := Scalar.least a rest
    let high := Scalar.largest a rest
    (some (margin - low), high - low + 2.0 * margin)

/-- Shifts a coordinate. -/
def moved (shift : Option α) (a : α) : α :=
  match shift with
  | some d => a + d
  | none => a

/-- Shifts the drawing to its margins and sets the size of the graph; gives the graph and its
size. -/
def frame (g : Graph α) : Graph α × (α × α) :=
  let (shiftX, width) := fit g.marginX (coveredX g)
  let (shiftY, height) := fit g.marginY (coveredY g)
  let framed := { g with
    nodes := g.nodes.map fun v =>
      { v with x := v.x.map (moved shiftX), y := v.y.map (moved shiftY) }
    edges := g.edges.map fun e =>
      { e with points := e.points.map fun p => ⟨moved shiftX p.x, moved shiftY p.y⟩ }
    width := some width
    height := some height }
  (framed, (width, height))

end Scrawl.Layered
