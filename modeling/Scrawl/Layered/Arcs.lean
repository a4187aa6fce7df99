import Scrawl.Graph
/-!
# Scrawl.Layered.Arcs — the edges of a graph between numbered nodes

Layout works on node numbers `0, …, n - 1` in the order of the nodes.  An arc keeps the number of
the edge that it comes from, because parallel edges are told apart and some arcs are dropped or
turned round on the way.
-/

namespace Scrawl

/-- An edge between numbered nodes. -/
structure Arc (n : Nat) where
  /-- The number of the edge. -/
  edge : Nat
  source : Fin n
  target : Fin n
  deriving DecidableEq

namespace Arc

variable {n : Nat}

/-- The arc with its ends exchanged. -/
def turned (a : Arc n) : Arc n := { a with source := a.target, target := a.source }

/-- Whether the arc joins a node to itself. -/
def isLoop (a : Arc n) : Bool := a.source == a.target

/-- The arcs that leave a node, in order. -/
def leaving (arcs : List (Arc n)) (v : Fin n) : List (Arc n) := arcs.filter (·.source == v)

/-- The arcs that enter a node, in order. -/
def entering (arcs : List (Arc n)) (v : Fin n) : List (Arc n) := arcs.filter (·.target == v)

end Arc

namespace Graph

variable {α : Type}

/-- The number of the node with an id. -/
def number? (g : Graph α) (id : String) : Option (Fin g.nodes.length) :=
  g.nodes.findFinIdx? (·.id == id)

/-- The arcs of numbered edges, or the id of an end that is no node. -/
def arcsOf (g : Graph α) (edges : List (Nat × Edge α)) :
    Except String (List (Arc g.nodes.length)) :=
  edges.mapM fun (i, e) =>
    match g.number? e.source, g.number? e.target with
    | some s, some t => .ok ⟨i, s, t⟩
    | none, _ => .error e.source
    | _, none => .error e.target

/-- The arcs of a graph, one for each edge, or the id of an end that is no node. -/
def arcs (g : Graph α) : Except String (List (Arc g.nodes.length)) :=
  g.arcsOf ((List.range g.edges.length).zip g.edges)

end Graph

end Scrawl
