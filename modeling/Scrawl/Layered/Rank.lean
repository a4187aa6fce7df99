import Scrawl.Layered.Arcs
/-!
# Scrawl.Layered.Rank — a rank for every node

`topological` lists the nodes so that arcs lead forward: a node is listed once all arcs into it come
from listed nodes.  Along that list the rank of a node becomes one more than the largest rank with
an arc into it, which is the length of a longest path that ends there.
-/

namespace Scrawl.Layered

variable {n : Nat}

/-- The vector with another value for a node. -/
def setAt (xs : Vector Nat n) (v : Fin n) (x : Nat) : Vector Nat n := xs.set v x v.isLt

/-- Takes one off the open count of the target of every arc; gives the new counts and, behind
`ready`, the nodes whose count has become zero. -/
def release (ready : List (Fin n)) (counts : Vector Nat n) :
    List (Arc n) → List (Fin n) × Vector Nat n
  | [] => (ready, counts)
  | a :: rest =>
    let left := counts.get a.target - 1
    release (if left == 0 then ready ++ [a.target] else ready) (setAt counts a.target left) rest

/-- Lists the nodes of the queue and those that they release, at most `fuel` of them. -/
def drain (arcs : List (Arc n)) : Nat → List (Fin n) → Vector Nat n → List (Fin n)
  | 0, _, _ => []
  | _ + 1, [], _ => []
  | fuel + 1, v :: queue, counts =>
    let (queue, counts) := release queue counts (Arc.leaving arcs v)
    v :: drain arcs fuel queue counts

/-- The nodes in an order in which arcs lead forward, if the arcs have no cycle. -/
def topological (arcs : List (Arc n)) : List (Fin n) :=
  let counts := Vector.ofFn fun v => (Arc.entering arcs v).length
  drain arcs n ((List.finRange n).filter fun v => counts.get v == 0) counts

/-- Raises the targets of the arcs above `rank`. -/
def raise (rank : Nat) (ranks : Vector Nat n) (arcs : List (Arc n)) : Vector Nat n :=
  arcs.foldl (fun ranks a =>
    if ranks.get a.target < rank + 1 then setAt ranks a.target (rank + 1) else ranks) ranks

/-- The ranks of all nodes. -/
def ranksOf (arcs : List (Arc n)) : Vector Nat n :=
  (topological arcs).foldl (fun ranks v => raise (ranks.get v) ranks (Arc.leaving arcs v))
    (Vector.replicate n 0)

end Scrawl.Layered
