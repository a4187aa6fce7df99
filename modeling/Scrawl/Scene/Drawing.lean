import Scrawl.Graph
import Scrawl.Stroke.Pen
import Scrawl.Text.Lines
/-!
# Scrawl.Scene.Drawing — drawing a laid-out graph

The arrow head is drawn first with a finer pen and a source of its own; then every node gets its
rectangle and label, and every edge its curve, all from one source in the order of the graph.  The
rectangle of a node stands a little above its centre, so that a baseline at the centre reads as
centred.
-/

namespace Scrawl.Scene

open Stroke

/-- Why a graph cannot be drawn. -/
inductive RenderFault (α : Type)
  | geometry (fault : GeometryFault)
  /-- The roughness of a pen is negative. -/
  | roughness (value : α)
  | stroke (fault : StrokeFault)

/-- The wording of the fault. -/
def RenderFault.message : RenderFault Float → String
  | geometry fault => fault.message
  | roughness value => Stroke.roughnessMessage value
  | stroke fault => fault.message

/-- How a drawing is made. -/
structure Style (α : Type) where
  sketchiness : α
  fontFamily : String
  fontSize : α

/-- A drawn node. -/
structure NodeShape (α : Type) where
  id : String
  outline : Path α
  /-- Where the label is anchored. -/
  center : Point α
  /-- The lines of the label. -/
  lines : List String

/-- A drawn edge. -/
structure EdgeShape (α : Type) where
  source : String
  target : String
  path : Path α

/-- A drawing by its numbers and paths. -/
structure Drawing (α : Type) where
  width : α
  height : α
  fontFamily : String
  fontSize : α
  arrowFill : Path α
  arrowOutline : Path α
  nodes : List (NodeShape α)
  edges : List (EdgeShape α)

variable {σ α : Type} [Scalar α] [Source σ α]

/-- The corners of the arrow head. -/
def arrowCorners : List (Point α) := [⟨0.0, 0.0⟩, ⟨10.0, 4.0⟩, ⟨0.0, 8.0⟩, ⟨4.0, 4.0⟩]

/-- The pen for nodes and edges. -/
def mainPen (roughness : α) : Pen α := ⟨roughness, 1.0, 2.0⟩

/-- The pen for the arrow head, which is drawn at a smaller scale. -/
def arrowPen (roughness : α) : Pen α := ⟨roughness, 1.0, 0.5⟩

/-- Draws the arrow head: its filling and its outline. -/
def drawArrow (pen : Pen α) : Sketch σ (Path α × Path α) := do
  return (← pen.outline arrowCorners, ← pen.linearPath arrowCorners true)

/-- The top of a node's rectangle. -/
def topOf (y height : α) : α := y - height / 1.75

/-- Draws a node. -/
def drawNode (pen : Pen α) (id label : String) (size : α × α) (center : Point α) :
    Sketch σ (NodeShape α) := do
  let outline ← pen.rectangle (center.x - size.1 / 2.0) (topOf center.y size.2) size.1 size.2
  return ⟨id, outline, ← writtenPoint center, Text.splitOnNewline label⟩

/-- Draws an edge. -/
def drawEdge (pen : Pen α) (e : Edge α) : Sketch σ (EdgeShape α) := do
  return ⟨e.source, e.target, ← pen.curve e.points⟩

/-- What a graph that can be drawn consists of. -/
structure Resolved (α : Type) where
  width : α
  height : α
  /-- Id, label, size and centre of each node. -/
  nodes : List (String × String × (α × α) × Point α)
  edges : List (Edge α)

/-- The geometry of a graph, or what it misses. -/
def resolve (g : Graph α) : Except GeometryFault (Resolved α) :=
  match g.geometryFault? with
  | some fault => .error fault
  | none =>
    match g.width, g.height with
    | some width, some height =>
      let nodes := g.nodes.filterMap fun v =>
        match v.size?, v.center? with
        | some size, some center => some (v.id, v.label, size, center)
        | _, _ => none
      .ok ⟨width, height, nodes, g.edges⟩
    | _, _ => .error .noGraphSize

/-- Runs a sketch from a source. -/
def runSketch {β : Type} (sketch : Sketch σ β) (source : σ) : Except (RenderFault α) (β × σ) :=
  match sketch source with
  | (.ok b, rest) => .ok (b, rest)
  | (.error fault, _) => .error (.stroke fault)

/-- The sizes that stand at the head of a drawing, as they are going to be written. -/
def drawHead (width height fontSize : α) : Sketch σ (α × α × α) := do
  return (← written width, ← written height, ← written fontSize)

/-- Draws a graph, taking all random numbers from `source`. -/
def draw (style : Style α) (source : σ) (g : Graph α) : Except (RenderFault α) (Drawing α) := do
  let r ← (resolve g).mapError .geometry
  if style.sketchiness < 0.0 then throw (.roughness style.sketchiness)
  let pen := mainPen style.sketchiness
  let ((width, height, fontSize), _) ← runSketch (drawHead r.width r.height style.fontSize) source
  let ((arrowFill, arrowOutline), _) ← runSketch (drawArrow (arrowPen style.sketchiness)) source
  let (nodes, source) ← runSketch
    (r.nodes.mapM fun (id, label, size, center) => drawNode pen id label size center) source
  let (edges, _) ← runSketch (r.edges.mapM (drawEdge pen)) source
  return ⟨width, height, style.fontFamily, fontSize, arrowFill, arrowOutline, nodes, edges⟩

end Scrawl.Scene
