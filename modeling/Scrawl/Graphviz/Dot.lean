import Scrawl.Decimal.Fixed
import Scrawl.Graph
/-!
# Scrawl.Graphviz.Dot — a sized graph as input for the dot program

Nodes are boxes of fixed size without labels, lengths are in inches at 96 pixels each with four
decimal places, and ids stand between double quotes.
-/

namespace Scrawl.Graphviz

/-- Pixels in an inch. -/
def pixelsPerInch {α : Type} [OfScientific α] : α := 96.0

/-- An id in double quotes, a backslash before every quote and backslash. -/
def quoteId (id : String) : String :=
  String.ofList ('"' :: id.toList.flatMap
    (fun c => if c == '"' || c == '\\' then ['\\', c] else [c]) ++ ['"'])

variable {α : Type}

/-- The line of an edge. -/
def edgeLine (e : Edge α) : String :=
  "  " ++ quoteId e.source ++ " -> " ++ quoteId e.target ++ ";"

variable [Scalar α] [Decimal.ToFixed α]

/-- A length of pixels in inches, at least `least`. -/
def inches (least pixels : α) : String :=
  Decimal.ToFixed.toFixed 4 (Scalar.max least (pixels / pixelsPerInch))

/-- The line of a node; one that has not been measured gets the least size. -/
def nodeLine (v : Node α) : String :=
  "  " ++ quoteId v.id ++ " [width=\"" ++ inches 0.01 (v.width.getD 0.0) ++ "\", height=\"" ++
    inches 0.01 (v.height.getD 0.0) ++ "\"];"

/-- The lines before the nodes. -/
def headLines (g : Graph α) : List String :=
  ["digraph G \x7b",
   "  graph [rankdir=\"" ++ g.direction.name ++ "\", splines=\"polyline\", nodesep=\"" ++
     inches 0.02 g.nodeGap ++ "\", ranksep=\"" ++ inches 0.02 g.rankGap ++ "\", pad=\"0\"];",
   "  node [shape=\"box\", fixedsize=\"true\", margin=\"0\", label=\"\"];",
   "  edge [arrowhead=\"none\"];"]

/-- The graph as input for dot. -/
def source (g : Graph α) : String :=
  "\n".intercalate (headLines g ++ g.nodes.map nodeLine ++ g.edges.map edgeLine ++ ["\x7d"])

end Scrawl.Graphviz
