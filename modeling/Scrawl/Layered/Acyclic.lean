import Scrawl.Layered.Arcs
/-!
# Scrawl.Layered.Acyclic — turning arcs round until no cycle is left

A depth-first search starts at every node in order and follows the arcs in order.  An arc that leads
to a node still open closes a cycle and is turned round; loops are dropped.  A node is open exactly
while it is on the stack, so that the search needs no marks beside the stack and the list of closed
nodes.
-/

namespace Scrawl.Layered

variable {n : Nat}

/-- An open node with the arcs still to follow from it. -/
structure Frame (n : Nat) where
  node : Fin n
  todo : List (Arc n)

/-- The state of the search. -/
structure Search (n : Nat) where
  /-- The nodes that may still be started from. -/
  roots : List (Fin n)
  /-- The open nodes, the deepest first. -/
  stack : List (Frame n) := []
  /-- The nodes that are done. -/
  closed : List (Fin n) := []
  /-- The edges found to close a cycle. -/
  back : List Nat := []

namespace Search

/-- Whether the node is on the stack. -/
def isOpen (s : Search n) (v : Fin n) : Bool := s.stack.any (·.node == v)

/-- Opens a node that has not been seen yet. -/
def enter (arcs : List (Arc n)) (s : Search n) (v : Fin n) : Search n :=
  if s.isOpen v || s.closed.contains v then s
  else { s with stack := ⟨v, Arc.leaving arcs v⟩ :: s.stack }

/-- One step: the next root, the end of a node, or the next arc of the deepest open node; none when
nothing is left to do. -/
def step? (arcs : List (Arc n)) (s : Search n) : Option (Search n) :=
  match s.stack with
  | [] =>
    match s.roots with
    | [] => none
    | v :: roots => some (enter arcs { s with roots } v)
  | ⟨v, []⟩ :: stack => some { s with stack, closed := v :: s.closed }
  | ⟨v, a :: todo⟩ :: stack =>
    let s := { s with stack := ⟨v, todo⟩ :: stack }
    if s.isOpen a.target then some { s with back := a.edge :: s.back }
    else some (enter arcs s a.target)

/-- At most `fuel` steps. -/
def run (arcs : List (Arc n)) : Nat → Search n → Search n
  | 0, s => s
  | fuel + 1, s =>
    match s.step? arcs with
    | some t => run arcs fuel t
    | none => s

end Search

/-- The edges that close a cycle.  Each node is taken as a root once, opened and closed at most
once, and each arc is followed at most once, which bounds the steps. -/
def backEdges (arcs : List (Arc n)) : List Nat :=
  (Search.run arcs (2 * n + arcs.length) { roots := List.finRange n }).back

/-- The arcs without loops, those of the edges in `back` turned round. -/
def turnArcs (back : List Nat) (arcs : List (Arc n)) : List (Arc n) :=
  (arcs.filter (!·.isLoop)).map fun a => if back.contains a.edge then a.turned else a

end Scrawl.Layered
