import Scrawl.Layered.Acyclic
import Scrawl.Layered.Frame
import Scrawl.Layered.Order
import Scrawl.Layered.Pack
import Scrawl.Layered.Rank
import Scrawl.Layered.Route
/-!
# Scrawl.Layered.Layout — the layered layout of a graph

The edges are made acyclic, nodes are ranked, long edges get a stop in every rank they pass, the
ranks are ordered and packed, and the edges are routed over their stops.  `place` gives the graph
its geometry; `frame` then moves it to the margins.
-/

namespace Scrawl.Layered

variable {α : Type} [Scalar α]

/-- The ranks, rows and stops of a graph's nodes and edges. -/
structure Plan (n : Nat) where
  /-- The edges that are turned round. -/
  back : List Nat
  /-- The arcs, acyclic and without loops. -/
  arcs : List (Arc n)
  ranks : Vector Nat n
  /-- The members of each rank in their final order. -/
  rows : List (List (Stop n))

/-- The plan of a list of arcs. -/
def plan {n : Nat} (arcs : List (Arc n)) : Plan n :=
  let back := backEdges arcs
  let arcs := turnArcs back arcs
  let ranks := ranksOf arcs
  ⟨back, arcs, ranks, order (segmentsOf ranks arcs) (rows ranks arcs)⟩

/-- The middle points of the edges that pass through ranks, from source to target. -/
def waypoints {n : Nat} (p : Plan n) (centers : List (Stop n × Point α)) (a : Arc n) :
    List (Point α) :=
  let points := (viasOf p.ranks a).filterMap fun s => centers.lookup s
  if p.back.contains a.edge then points.reverse else points

/-- The size of a node, zero where it has not been measured. -/
def sizeOrZero (v : Node α) : α × α := v.size?.getD (0.0, 0.0)

/-- The box of a node around its centre. -/
def placedOf (v : Node α) (center : Point α) : Placed α :=
  ⟨center, (sizeOrZero v).1, (sizeOrZero v).2⟩

/-- The route of the `i`-th edge. -/
def routeEdge (g : Graph α) (via : Nat → List (Point α)) (earlier : List (Edge α)) (i : Nat)
    (e : Edge α) : List (Point α) :=
  match g.node? e.source, g.node? e.target with
  | some s, some t =>
    match s.center?, t.center? with
    | some c, some d =>
      if e.source == e.target then
        loopRoute (Node.boxAt (sizeOrZero s).1 (sizeOrZero s).2 c)
      else
        match via i with
        | first :: rest => routeOver (placedOf s c) (placedOf t d) first rest
        | [] =>
          let share := shareOf earlier g.edges e
          let mid := directMiddle g.nodeGap share (placedOf s c) (placedOf t d)
            (e.source ≤ e.target)
          routeOver (placedOf s c) (placedOf t d) mid []
    | _, _ => e.points
  | _, _ => e.points

/-- Routes all edges in order; `earlier` holds those before. -/
def routeEdges (g : Graph α) (via : Nat → List (Point α)) (earlier : List (Edge α)) :
    List (Edge α) → List (Edge α)
  | [] => []
  | e :: rest =>
    { e with points := routeEdge g via earlier earlier.length e } ::
      routeEdges g via (earlier ++ [e]) rest

/-- Places the nodes and routes the edges along the arcs of the graph. -/
def placeAlong (g : Graph α) (arcs : List (Arc g.nodes.length)) : Graph α :=
  let p := plan arcs
  let sizes := Vector.ofFn fun v : Fin g.nodes.length => sizeOrZero (g.nodes.get v)
  let centers := pack ⟨g.direction, g.nodeGap, g.rankGap⟩ sizes p.rows
  let nodes := (List.finRange g.nodes.length).map fun v =>
    let c := centers.lookup (.node v)
    { g.nodes.get v with x := c.map (·.x), y := c.map (·.y) }
  let placed := { g with nodes }
  let via := fun i =>
    match p.arcs.find? (·.edge == i) with
    | some a => waypoints p centers a
    | none => []
  { placed with edges := routeEdges placed via [] placed.edges }

/-- The graph with its geometry, and its size, or the id of an edge's end that is no node. -/
def layout (g : Graph α) : Except String (Graph α × (α × α)) := do
  return frame (placeAlong g (← g.arcs))

end Scrawl.Layered
