import Scrawl.Random.Twister
import Scrawl.Scene.Drawing
import Scrawl.Svg.Element
import Scrawl.Svg.Number
/-!
# Scrawl.Scene.Markup — a drawing as SVG

The document holds one arrow head as a marker, then a group for each node with its rectangle and
label, then a group for each edge with its curve, which ends in the arrow head.  Ids and labels
stand in attribute values and texts only.
-/

namespace Scrawl.Scene

open Stroke Svg

/-- The namespace of SVG. -/
def svgNamespace : String := "http://www.w3.org/2000/svg"

/-- The id of the arrow head. -/
def arrowId : String := "arrow"

/-- The colour of all strokes. -/
def strokeColor : String := "#000"

/-- The distance of the lines of a label, in heights of the font. -/
def lineHeight : Float := 1.2

/-- The text of points, with a blank between all numbers. -/
def pointsText (points : List (Point Float)) : String :=
  " ".intercalate (points.flatMap fun p => [number p.x, number p.y])

/-- The text of a step. -/
def stepText (s : Step Float) : String :=
  match s with
  | .move _ => "M" ++ pointsText s.points
  | .line _ => "L" ++ pointsText s.points
  | .cubic _ _ _ => "C" ++ pointsText s.points
  | .close => "Z"

/-- The text of a path. -/
def pathText (path : Path Float) : String := " ".intercalate (path.map stepText)

/-- A path element. -/
def pathElement (kind : String) (path : Path Float) (style : Svg.Attributes) : Element :=
  .leaf "path" ([("class", kind), ("d", pathText path)] ++ style) ""

/-- The attributes of a stroke that is not filled. -/
def strokeStyle (width : String) : Svg.Attributes :=
  [("stroke", strokeColor), ("stroke-width", width), ("fill", "none")]

/-- The marker that holds the arrow head. -/
def marker (d : Drawing Float) : Element :=
  .branch "marker"
    [("id", arrowId), ("viewBox", "0 0 10 10"), ("refX", "9"), ("refY", "4"),
     ("markerUnits", "strokeWidth"), ("markerWidth", "10"), ("markerHeight", "10"),
     ("orient", "auto")]
    [pathElement "arrowhead-fill" d.arrowFill [("fill", strokeColor), ("stroke", "none")],
     pathElement "arrowhead" d.arrowOutline (strokeStyle "0.5")]

/-- The lines of a label of `count` lines from the `i`-th on.  The first baseline is moved up so
that the block stays centred. -/
def lineElements (x : String) (count i : Nat) : List String → List Element
  | [] => []
  | line :: rest =>
    let dy := if i == 0 then Float.ofInt (-(count - 1 : Nat)) * lineHeight / 2.0 else lineHeight
    .leaf "tspan" [("x", x), ("dy", number dy ++ "em")] line :: lineElements x count (i + 1) rest

/-- The label of a node: its text, or an element for each of its lines. -/
def labelElement (v : NodeShape Float) : Element :=
  let x := number v.center.x
  let attributes :=
    [("class", "label"), ("x", x), ("y", number v.center.y), ("text-anchor", "middle")]
  match v.lines with
  | [line] => .leaf "text" attributes line
  | lines => .branch "text" attributes (lineElements x lines.length 0 lines)

/-- The group of a node. -/
def nodeElement (v : NodeShape Float) : Element :=
  .branch "g" [("class", "node"), ("data-id", v.id)]
    [pathElement "node-shape" v.outline (strokeStyle "1"), labelElement v]

/-- The group of an edge. -/
def edgeElement (e : EdgeShape Float) : Element :=
  .branch "g" [("class", "edge"), ("data-source", e.source), ("data-target", e.target)]
    [pathElement "edge-path" e.path
      (strokeStyle "1" ++ [("marker-end", "url(#" ++ arrowId ++ ")")])]

/-- The document of a drawing. -/
def document (d : Drawing Float) : Element :=
  let width := number d.width
  let height := number d.height
  .branch "svg"
    [("xmlns", svgNamespace), ("width", width), ("height", height),
     ("viewBox", "0 0 " ++ width ++ " " ++ height),
     ("font-family", d.fontFamily ++ ", sans-serif"), ("font-size", number d.fontSize)]
    (.branch "defs" [] [marker d] :: (d.nodes.map nodeElement ++ d.edges.map edgeElement))

end Scrawl.Scene

namespace Scrawl

open Svg

/-- A rendered graph: its document and its size. -/
structure Scene where
  root : Element
  width : Float
  height : Float

namespace Scene

/-- The SVG text. -/
def toSvg (s : Scene) : String := s.root.render

/-- The elements of a tag and, where one is given, a class. -/
def select (s : Scene) (tag : String) (kind : Option String := none) : List Element :=
  s.root.all.filter fun e =>
    e.tag == tag && match kind with
      | some k => e.attribute? "class" == some k
      | none => true

/-- The markers. -/
def markers (s : Scene) : List Element := s.select "marker"

/-- The rectangles of the nodes. -/
def nodeShapes (s : Scene) : List Element := s.select "path" (some "node-shape")

/-- The labels of the nodes. -/
def labels (s : Scene) : List Element := s.select "text" (some "label")

/-- The curves of the edges. -/
def edgePaths (s : Scene) : List Element := s.select "path" (some "edge-path")

/-- Renders a laid-out graph with the strokes of a seed. -/
def render (style : Style Float) (seed : Int) (g : Graph Float) :
    Except (RenderFault Float) Scene := do
  let d ← draw style (Random.Twister.ofSeed seed) g
  return ⟨document d, d.width, d.height⟩

end Scene

end Scrawl
