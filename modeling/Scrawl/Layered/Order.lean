import Scrawl.Layered.Chain
/-!
# Scrawl.Layered.Order — the order within the ranks

Four sweeps, down and up in turn, reorder each rank against the one passed before: every member
moves to the median position of its neighbours there, the mean of the two middle ones if their
number is even, and a member without neighbours stays where it is.  Equal medians keep their order.
-/

namespace Scrawl.Layered

section Median

variable {β : Type} [DecidableEq β]

/-- The doubled median of increasing positions. -/
def doubledMedian? (positions : List Nat) : Option Nat :=
  let mid := positions.length / 2
  if positions.length % 2 == 1 then (positions[mid]?).map (2 * ·)
  else
    match positions[mid - 1]?, positions[mid]? with
    | some a, some b => some (a + b)
    | _, _ => none

/-- The positions that the neighbours take in `fixed`, in increasing order. -/
def positionsIn (fixed neighbours : List β) : List Nat :=
  (neighbours.filterMap (fixed.idxOf? ·)).mergeSort

/-- The place of a member in its row, the last one if there are more. -/
def placeIn (members : List β) (v : β) : Nat :=
  members.length - 1 - members.reverse.idxOf v

/-- What a member is sorted by: the doubled position that it strives for, then where it stands. -/
def sortKey (members fixed : List β) (neighbours : β → List β) (v : β) : Nat × Nat :=
  let i := placeIn members v
  ((doubledMedian? (positionsIn fixed (neighbours v))).getD (2 * i), i)

/-- Whether a key comes no later than another. -/
def keyLE (a b : Nat × Nat) : Bool := a.1 < b.1 || (a.1 == b.1 && a.2 ≤ b.2)

/-- Sorts the members by the medians of their neighbours in `fixed`, keeping the order of equals. -/
def orderByMedian (members fixed : List β) (neighbours : β → List β) : List β :=
  ((members.map fun v => (sortKey members fixed neighbours v, v)).mergeSort
    fun a b => keyLE a.1 b.1).map (·.2)

end Median

variable {n : Nat}

/-- The stops that segments lead from into a stop. -/
def before (segments : List (Stop n × Stop n)) (v : Stop n) : List (Stop n) :=
  segments.filterMap fun (a, b) => if b = v then some a else none

/-- The stops that segments lead to from a stop. -/
def after (segments : List (Stop n × Stop n)) (v : Stop n) : List (Stop n) :=
  segments.filterMap fun (a, b) => if a = v then some b else none

/-- Reorders each row against the one before it, which has been reordered already. -/
def sweep (neighbours : Stop n → List (Stop n)) (fixed : List (Stop n)) :
    List (List (Stop n)) → List (List (Stop n))
  | [] => []
  | row :: rest =>
    let row := orderByMedian row fixed neighbours
    row :: sweep neighbours row rest

/-- Sweeps from the first row to the last. -/
def sweepFrom (neighbours : Stop n → List (Stop n)) :
    List (List (Stop n)) → List (List (Stop n))
  | [] => []
  | row :: rest => row :: sweep neighbours row rest

/-- A sweep down, then a sweep up. -/
def sweepBoth (segments : List (Stop n × Stop n)) (rows : List (List (Stop n))) :
    List (List (Stop n)) :=
  (sweepFrom (after segments) (sweepFrom (before segments) rows).reverse).reverse

/-- The rows in their final order. -/
def order (segments : List (Stop n × Stop n)) (rows : List (List (Stop n))) :
    List (List (Stop n)) :=
  sweepBoth segments (sweepBoth segments rows)

end Scrawl.Layered
