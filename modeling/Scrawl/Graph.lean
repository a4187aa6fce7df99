import Scrawl.Scalar
/-!
# Scrawl.Graph — directed graphs and their geometry

A graph holds its nodes in the order of their first mention and its edges in the order they were
added.  Geometry is optional and comes in stages: measuring gives every node its size, layout gives
every node its centre, every edge its route and the graph its size.  `sizeFault?` and
`geometryFault?` say what a stage still lacks.
-/

namespace Scrawl

/-- The way in which ranks follow each other. -/
inductive Direction
  | topBottom
  | bottomTop
  | leftRight
  | rightLeft
  /-- A name outside the four. -/
  | other (name : String)
  deriving DecidableEq

namespace Direction

/-- The four directions, in the order in which messages list them. -/
def all : List Direction := [topBottom, bottomTop, leftRight, rightLeft]

/-- The name of a direction. -/
def name : Direction → String
  | topBottom => "TB"
  | bottomTop => "BT"
  | leftRight => "LR"
  | rightLeft => "RL"
  | other name => name

/-- The direction among the four that has the name. -/
def ofName? (s : String) : Option Direction := all.find? (·.name == s)

/-- The direction of a name, whatever it is. -/
def ofName (s : String) : Direction := (ofName? s).getD (.other s)

/-- Whether ranks are columns. -/
def isHorizontal (d : Direction) : Bool := d == leftRight || d == rightLeft

end Direction

/-- A node; an absent number has not been computed yet. -/
structure Node (α : Type) where
  id : String
  label : String
  width : Option α := none
  height : Option α := none
  x : Option α := none
  y : Option α := none

/-- An edge with the points of its route. -/
structure Edge (α : Type) where
  source : String
  target : String
  points : List (Point α) := []

/-- A directed graph. -/
structure Graph (α : Type) where
  name : Option String := none
  nodes : List (Node α) := []
  edges : List (Edge α) := []
  direction : Direction := .topBottom
  marginX : α
  marginY : α
  nodeGap : α
  rankGap : α
  width : Option α := none
  height : Option α := none

/-- The geometry that a stage misses. -/
inductive GeometryFault
  /-- The box of a node was asked for. -/
  | noBox (id : String)
  | unsized (ids : List String)
  | unplaced (ids : List String)
  | unrouted (source target : String)
  | noGraphSize
  deriving DecidableEq

/-- The wording of the fault. -/
def GeometryFault.message : GeometryFault → String
  | noBox id => "node \"" ++ id ++ "\" has no resolved geometry"
  | unsized ids =>
    "layout requires measured nodes; missing width/height for: " ++ ", ".intercalate ids
  | unplaced ids => "rendering requires laid out nodes; missing x/y for: " ++ ", ".intercalate ids
  | unrouted s t =>
    "rendering requires routed edges; \"" ++ s ++ "\" -> \"" ++ t ++ "\" has no points"
  | noGraphSize => "rendering requires the graph bounding size"

/-- A box by its four sides. -/
structure Box (α : Type) where
  left : α
  top : α
  right : α
  bottom : α

namespace Node

variable {α : Type}

/-- Whether the node has been measured. -/
def isSized (n : Node α) : Bool := n.width.isSome && n.height.isSome

/-- Whether the node has a centre. -/
def isPlaced (n : Node α) : Bool := n.x.isSome && n.y.isSome

/-- The size of a measured node. -/
def size? (n : Node α) : Option (α × α) :=
  match n.width, n.height with
  | some w, some h => some (w, h)
  | _, _ => none

/-- The centre of a placed node. -/
def center? (n : Node α) : Option (Point α) :=
  match n.x, n.y with
  | some x, some y => some ⟨x, y⟩
  | _, _ => none

/-- The box of size `(w, h)` around `c`. -/
def boxAt [Scalar α] (w h : α) (c : Point α) : Box α :=
  ⟨c.x - w / 2.0, c.y - h / 2.0, c.x + w / 2.0, c.y + h / 2.0⟩

/-- The box of a measured and placed node. -/
def box? [Scalar α] (n : Node α) : Option (Box α) :=
  match n.size?, n.center? with
  | some (w, h), some c => some (boxAt w h c)
  | _, _ => none

end Node

/-- Whether the route has the two points that a drawing needs. -/
def Edge.isRouted {α : Type} (e : Edge α) : Bool := 2 ≤ e.points.length

namespace Graph

variable {α : Type}

/-- A graph without nodes, with margins of 10 and gaps of 50. -/
def empty [Scalar α] : Graph α :=
  { marginX := 10.0, marginY := 10.0, nodeGap := 50.0, rankGap := 50.0 }

/-- The ids of the nodes, in order. -/
def ids (g : Graph α) : List String := g.nodes.map (·.id)

/-- The node with an id. -/
def node? (g : Graph α) (id : String) : Option (Node α) := g.nodes.find? (·.id == id)

/-- Whether there is a node with the id. -/
def hasNode (g : Graph α) (id : String) : Bool := g.nodes.any (·.id == id)

/-- Changes the node with an id. -/
def updateNode (g : Graph α) (id : String) (f : Node α → Node α) : Graph α :=
  { g with nodes := g.nodes.map fun n => if n.id == id then f n else n }

/-- Makes sure that there is a node with the id; a label, if given, replaces the one it has.  A new
node without a label is labelled with its id. -/
def addNode (g : Graph α) (id : String) (label : Option String := none) : Graph α :=
  if g.hasNode id then
    match label with
    | some l => g.updateNode id fun n => { n with label := l }
    | none => g
  else { g with nodes := g.nodes ++ [{ id, label := label.getD id }] }

/-- Adds an edge, and its ends where they are missing. -/
def addEdge (g : Graph α) (source target : String) : Graph α :=
  let g := (g.addNode source).addNode target
  { g with edges := g.edges ++ [{ source, target }] }

/-- Sets the route of the edge at an index, which counts from the end if it is negative; none if
there is no such edge. -/
def setPoints? (g : Graph α) (index : Int) (points : List (Point α)) : Option (Graph α) :=
  let i := if index < 0 then index + g.edges.length else index
  if 0 ≤ i ∧ i < g.edges.length then
    some { g with edges := g.edges.modify i.toNat fun e => { e with points } }
  else none

/-- What keeps the graph from being laid out. -/
def sizeFault? (g : Graph α) : Option GeometryFault :=
  match (g.nodes.filter (!·.isSized)).map (·.id) with
  | [] => none
  | ids => some (.unsized ids)

/-- What keeps the graph from being drawn. -/
def geometryFault? (g : Graph α) : Option GeometryFault :=
  match g.sizeFault? with
  | some fault => some fault
  | none =>
    match (g.nodes.filter (!·.isPlaced)).map (·.id) with
    | id :: more => some (.unplaced (id :: more))
    | [] =>
      match g.edges.find? (!·.isRouted) with
      | some e => some (.unrouted e.source e.target)
      | none => if g.width.isNone || g.height.isNone then some .noGraphSize else none

end Graph

end Scrawl
