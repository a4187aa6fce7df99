import Scrawl.Layered.Chain
/-!
# Scrawl.Layered.Pack — coordinates for the stops of every rank

Each rank is a band as thick as its thickest member, and bands follow each other with the rank gap
between.  Within a band the members stand side by side with the node gap between, the whole row
centred on the widest one.  A passing edge takes no room of its own but the gaps around it.  The
direction says how the position across and the position along the ranks become `x` and `y`.
-/

namespace Scrawl.Layered

variable {α : Type} [Scalar α] {n : Nat}

/-- The room a member takes: across within its rank, and along the ranks. -/
structure Extent (α : Type) where
  across : α
  along : α

/-- What packing needs to know beside the rows. -/
structure Spacing (α : Type) where
  direction : Direction
  nodeGap : α
  rankGap : α

/-- Maps a position across and along the ranks to the plane. -/
def orient (d : Direction) (across along : α) : Point α :=
  match d with
  | .topBottom => ⟨across, along⟩
  | .bottomTop => ⟨across, -along⟩
  | .leftRight => ⟨along, across⟩
  | .rightLeft => ⟨-along, across⟩
  | .other _ => ⟨-along, across⟩

/-- The extent of a node of a given width and height. -/
def extentOf (d : Direction) (size : α × α) : Extent α :=
  if d.isHorizontal then ⟨size.2, size.1⟩ else ⟨size.1, size.2⟩

/-- The extent of a stop. -/
def Stop.extent (d : Direction) (sizes : Vector (α × α) n) : Stop n → Extent α
  | .node v => extentOf d (sizes.get v)
  | .via _ _ => ⟨0.0, 0.0⟩

/-- The length of a row: its members and the gaps between them. -/
def spanOf (gap : α) (row : List (Extent α)) : α :=
  Scalar.sum (row.map (·.across)) + gap * Scalar.ofNat (row.length - 1)

/-- The thickness of a band. -/
def bandOf (row : List (Extent α)) : α := Scalar.largestOrZero (row.map (·.along))

/-- The centres of the members of a row from `cursor` on, as positions across the ranks. -/
def placeRow (gap cursor : α) : List (Extent α) → List α
  | [] => []
  | e :: rest => (cursor + e.across / 2.0) :: placeRow gap (cursor + (e.across + gap)) rest

/-- The centres of all members, the rows starting at `cursor` along the ranks. -/
def placeRows (s : Spacing α) (widest cursor : α) : List (List (Extent α)) → List (List (Point α))
  | [] => []
  | row :: rest =>
    let middle := cursor + bandOf row / 2.0
    let start := (widest - spanOf s.nodeGap row) / 2.0
    (placeRow s.nodeGap start row).map (orient s.direction · middle) ::
      placeRows s widest (cursor + (bandOf row + s.rankGap)) rest

/-- The stops of all rows with their centres. -/
def pack (s : Spacing α) (sizes : Vector (α × α) n) (rows : List (List (Stop n))) :
    List (Stop n × Point α) :=
  let extents := rows.map (·.map (Stop.extent s.direction sizes))
  let widest := Scalar.largestOrZero (extents.map (spanOf s.nodeGap))
  rows.flatten.zip (placeRows s widest 0.0 extents).flatten

end Scrawl.Layered
