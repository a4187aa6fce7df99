import Scrawl.Layered.Arcs
/-!
# Scrawl.Layered.Chain — splitting arcs at the ranks they pass

A stop is what takes a place in a rank: a node, or an edge that passes through on its way.  An arc
from rank `a` to rank `b` has a stop in every rank between, so that its segments join neighbouring
ranks.
-/

namespace Scrawl.Layered

variable {n : Nat}

/-- What takes a place in a rank. -/
inductive Stop (n : Nat)
  | node (v : Fin n)
  /-- The edge of that number, passing through the rank. -/
  | via (edge rank : Nat)
  deriving DecidableEq

namespace Stop

/-- The rank of a stop. -/
def rank (ranks : Vector Nat n) : Stop n → Nat
  | node v => ranks.get v
  | via _ r => r

end Stop

/-- The stops of an arc strictly between its ends. -/
def viasOf (ranks : Vector Nat n) (a : Arc n) : List (Stop n) :=
  let first := ranks.get a.source + 1
  (List.range' first (ranks.get a.target - first)).map (.via a.edge)

/-- All stops of an arc. -/
def stopsOf (ranks : Vector Nat n) (a : Arc n) : List (Stop n) :=
  .node a.source :: (viasOf ranks a ++ [.node a.target])

/-- Neighbours in a list, as pairs. -/
def consecutive {β : Type} (xs : List β) : List (β × β) := xs.zip (xs.drop 1)

/-- The segments of all arcs. -/
def segmentsOf (ranks : Vector Nat n) (arcs : List (Arc n)) : List (Stop n × Stop n) :=
  arcs.flatMap fun a => consecutive (stopsOf ranks a)

/-- All stops: the nodes in order, then those of the arcs in order. -/
def allStops (ranks : Vector Nat n) (arcs : List (Arc n)) : List (Stop n) :=
  (List.finRange n).map .node ++ arcs.flatMap (viasOf ranks)

/-- The members of each rank, from rank zero to the last one in use. -/
def rows (ranks : Vector Nat n) (arcs : List (Arc n)) : List (List (Stop n)) :=
  let stops := allStops ranks arcs
  let last := (stops.map (Stop.rank ranks)).foldl max 0
  (List.range (last + 1)).map fun r => stops.filter (Stop.rank ranks · == r)

end Scrawl.Layered
