import Scrawl.Proofs.Layered.Completeness
import Scrawl.Proofs.Layered.LongestPaths
import Scrawl.Proofs.Layered.Spread

/-!
# Scrawl.Proofs.Layered.Room — the room that packing takes

The longest row takes all of the room across the ranks and every other row stands inside it.  Bands
follow each other along the ranks from zero on.  No rank is empty, and the thickest member of a rank
is a node, because edges that pass take no room of their own.

* `leftAt_bounds`, `leftAt_ends`, `bandAt_bounds`, `bandAt_last`: rows and bands in the room.
* `seat_bounds`: every stop stands in the room, with all that it takes.
* `exists_seat_across`, `exists_seat_along`: the four ends of the room are reached.
-/

namespace Scrawl

theorem Scalar.sum_eq (xs : List ℝ) : Scalar.sum xs = xs.sum := by
  have hzero : (0.0 : ℝ) = 0 := by norm_num
  rw [Scalar.sum, hzero, List.sum_eq_foldl]

namespace Layered

variable {n : ℕ}

/-! ### Rows and bands in full -/

section Offset

variable {β : Type}

theorem offset_succ (f : β → ℝ) (l : List β) {i : ℕ} (hi : i < l.length) :
    offset f l (i + 1) = offset f l i + f l[i] := by
  rw [offset, offset, List.take_succ_eq_append_getElem hi, List.map_append, List.sum_append]
  simp

theorem offset_length (f : β → ℝ) (gap : ℝ) (l : List β) :
    offset (fun x => f x + gap) l l.length = (l.map f).sum + gap * l.length := by
  rw [offset, List.take_length, List.sum_map_add, List.map_const', List.sum_replicate, nsmul_eq_mul]
  ring

end Offset

section Lengths

variable (s : Spacing ℝ) {extent : Stop n → Extent ℝ}

/-- The thickness of the bands and the gaps between them. -/
noncomputable def depthOf (extent : Stop n → Extent ℝ) (rows : List (List (Stop n))) : ℝ :=
  (rows.map fun row => bandOf (row.map extent)).sum + s.rankGap * (rows.length - 1)

theorem spanOf_eq {row : List (Stop n)} (hne : row ≠ []) : spanOf s.nodeGap (row.map extent) =
    (row.map fun t => (extent t).across).sum + s.nodeGap * (row.length - 1) := by
  have hcast : ∀ i : ℕ, (Scalar.ofNat i : ℝ) = i := fun i => Int.cast_natCast i
  rw [spanOf, Scalar.sum_eq, hcast, List.length_map, List.map_map,
    Nat.cast_pred (List.length_pos_iff.mpr hne)]
  rfl

variable {rows : List (List (Stop n))} {row : List (Stop n)} {k : ℕ}

theorem leftAt_bounds (hgap : 0 ≤ s.nodeGap) (hext : ∀ t, 0 ≤ (extent t).across)
    (hrow : row ∈ rows) (hk : k < row.length) :
    0 ≤ leftAt s extent (widestOf s extent rows) row k ∧
      leftAt s extent (widestOf s extent rows) row k + (extent row[k]).across ≤
        widestOf s extent rows := by
  have hne : row ≠ [] := List.ne_nil_of_length_pos (Nat.zero_lt_of_lt hk)
  have hwide : spanOf s.nodeGap (row.map extent) ≤ widestOf s extent rows :=
    Scalar.le_largestOrZero (List.mem_map_of_mem (List.mem_map_of_mem hrow))
  have hpos : ∀ t ∈ row, 0 ≤ (extent t).across + s.nodeGap :=
    fun t _ => add_nonneg (hext t) hgap
  have hbefore := offset_nonneg hpos k
  have hall := offset_add_le hpos hk le_rfl
  rw [offset_length] at hall
  rw [spanOf_eq s hne] at hwide
  rw [leftAt, spanOf_eq s hne]
  constructor <;> linarith

/-- The longest row begins and ends where the drawing does. -/
theorem leftAt_ends (hne : row ≠ [])
    (hlong : spanOf s.nodeGap (row.map extent) = widestOf s extent rows) :
    leftAt s extent (widestOf s extent rows) row 0 = 0 ∧
      ∀ hk : row.length - 1 < row.length,
        leftAt s extent (widestOf s extent rows) row (row.length - 1) +
          (extent row[row.length - 1]).across = widestOf s extent rows := by
  have hpos := List.length_pos_iff.mpr hne
  refine ⟨by rw [leftAt, hlong]; simp, fun hk => ?_⟩
  have hall := offset_succ (fun t => (extent t).across + s.nodeGap) row hk
  rw [Nat.sub_add_cancel hpos, offset_length] at hall
  rw [spanOf_eq s hne] at hlong
  rw [leftAt, spanOf_eq s hne]
  linarith

theorem bandAt_bounds (hgap : 0 ≤ s.rankGap) (hext : ∀ t, 0 ≤ (extent t).along) {r : ℕ}
    (hr : r < rows.length) : 0 ≤ bandAt s extent rows r ∧
      bandAt s extent rows r + bandOf (rows[r].map extent) ≤ depthOf s extent rows := by
  have hpos : ∀ row ∈ rows, 0 ≤ bandOf (row.map extent) + s.rankGap :=
    fun row _ => add_nonneg (bandOf_nonneg row hext) hgap
  have hall := offset_add_le hpos hr le_rfl
  rw [offset_length] at hall
  refine ⟨offset_nonneg hpos r, ?_⟩
  rw [bandAt, depthOf]
  linarith

theorem bandAt_last (extent : Stop n → Extent ℝ) {r : ℕ} (hr : r + 1 = rows.length) :
    bandAt s extent rows r + bandOf (rows[r].map extent) = depthOf s extent rows := by
  have hall := offset_succ (fun row => bandOf (row.map extent) + s.rankGap) rows
    (show r < rows.length by omega)
  rw [hr, offset_length] at hall
  rw [bandAt, depthOf]
  linarith

/-- A row with a member has a thickest one. -/
theorem isGreatest_bandOf (extent : Stop n → Extent ℝ) (hne : row ≠ []) :
    IsGreatest {l | ∃ t ∈ row, l = (extent t).along} (bandOf (row.map extent)) := by
  obtain ⟨t, rest, rfl⟩ := List.exists_cons_of_ne_nil hne
  have h := Scalar.isGreatest_largest (extent t).along ((rest.map extent).map (·.along))
  refine ⟨?_, fun l ⟨u, hu, hl⟩ => hl ▸ along_le_bandOf hu⟩
  have hmem : bandOf ((t :: rest).map extent) ∈ ((t :: rest).map extent).map (·.along) := h.1
  obtain ⟨e, he, heq⟩ := List.mem_map.mp hmem
  obtain ⟨u, hu, rfl⟩ := List.mem_map.mp he
  exact ⟨u, hu, heq.symm⟩

theorem isGreatest_widestOf (extent : Stop n → Extent ℝ) (hne : rows ≠ []) :
    IsGreatest {l | ∃ row ∈ rows, l = spanOf s.nodeGap (row.map extent)}
      (widestOf s extent rows) := by
  obtain ⟨row, rest, rfl⟩ := List.exists_cons_of_ne_nil hne
  have h := Scalar.isGreatest_largest (spanOf s.nodeGap (row.map extent))
    ((rest.map (·.map extent)).map (spanOf s.nodeGap))
  have hrows : ∀ l, l ∈ ((row :: rest).map (·.map extent)).map (spanOf s.nodeGap) ↔
      ∃ row' ∈ row :: rest, l = spanOf s.nodeGap (row'.map extent) := fun l => by
    simp only [List.map_map, List.mem_map, Function.comp_apply, eq_comm]
  refine ⟨(hrows _).mp h.1, fun l hl => h.2 ((hrows l).mpr hl)⟩

end Lengths

/-! ### The room of a placement -/

/-- The spacing that a graph asks for. -/
abbrev spacingOf (g : Graph ℝ) : Spacing ℝ := ⟨g.direction, g.nodeGap, g.rankGap⟩

section Seats

variable {g : Graph ℝ} {arcs : List (Arc g.nodes.length)} {f : Stop g.nodes.length → Point ℝ}

/-- `f` says where packing puts the stops. -/
def Packs (g : Graph ℝ) (arcs : List (Arc g.nodes.length)) (f : Stop g.nodes.length → Point ℝ) :
    Prop :=
  ∀ t ∈ allStops (plan arcs).ranks (plan arcs).arcs,
    (pack (spacingOf g) (Vector.ofFn fun u => sizeOrZero (g.nodes.get u)) (plan arcs).rows).lookup
      t = some (f t)

/-- How far the placement goes across. -/
noncomputable def breadth (g : Graph ℝ) (arcs : List (Arc g.nodes.length)) : ℝ :=
  widestOf (spacingOf g) (stopExtent g) (plan arcs).rows

/-- How far the placement goes along the ranks. -/
noncomputable def depth (g : Graph ℝ) (arcs : List (Arc g.nodes.length)) : ℝ :=
  depthOf (spacingOf g) (stopExtent g) (plan arcs).rows

variable (hr : g.Represents arcs)
include hr

theorem rowsOf_plan : RowsOf (plan arcs).ranks (plan arcs).arcs (plan arcs).rows :=
  rowsOf_order (nodup_plan_edge hr.nodup_edge)

theorem rows_ne_nil (hne : g.nodes ≠ []) : (plan arcs).rows ≠ [] := by
  have hrank := (rowsOf_plan hr).rank_lt (.node ⟨0, List.length_pos_iff.mpr hne⟩)
    (mem_allStops_node _)
  exact List.ne_nil_of_length_pos (Nat.zero_lt_of_lt hrank)

/-- Every rank has a node. -/
theorem exists_node_in_row {r : ℕ} (hne : g.nodes ≠ []) (hrow : r < (plan arcs).rows.length) :
    ∃ u, Stop.node u ∈ (plan arcs).rows[r] := by
  have hlength : (plan arcs).rows.length = (rows (plan arcs).ranks (plan arcs).arcs).length :=
    (order_perm _ _).length_eq
  obtain ⟨u, hu⟩ := (exists_rank_iff (acyclic_turned hr.nodup_edge) r).mpr
    ⟨List.length_pos_iff.mpr hne, hlength ▸ hrow⟩
  exact ⟨u, ((rowsOf_plan hr).mem_row r hrow _).mpr ⟨mem_allStops_node u, hu⟩⟩

/-- The thickest member of a rank is a node. -/
theorem exists_thickest {r : ℕ} (hm : Measured g) (hne : g.nodes ≠ [])
    (hrow : r < (plan arcs).rows.length) : ∃ u, Stop.node u ∈ (plan arcs).rows[r] ∧
      (stopExtent g (.node u)).along = bandOf ((plan arcs).rows[r].map (stopExtent g)) := by
  obtain ⟨u, hu⟩ := exists_node_in_row hr hne hrow
  obtain ⟨⟨t, ht, hthick⟩, hmax⟩ := isGreatest_bandOf (stopExtent g) (List.ne_nil_of_mem hu)
  cases t with
  | node w => exact ⟨w, ht, hthick.symm⟩
  | via i r =>
    -- an edge that passes takes no room, but nodes do
    have hpos := (extent_pos hm u).2.trans_le (hmax ⟨_, hu, rfl⟩)
    rw [hthick, stopExtent_via] at hpos
    exact absurd hpos (lt_irrefl 0)

variable (hf : Packs g arcs f)
include hf

/-- Where the `k`-th member of the `r`-th row is placed. -/
theorem Packs.getElem {r k : ℕ} (hrow : r < (plan arcs).rows.length)
    (hk : k < (plan arcs).rows[r].length) : f (plan arcs).rows[r][k] =
      orient g.direction
        (leftAt (spacingOf g) (stopExtent g) (breadth g arcs) (plan arcs).rows[r] k +
          (stopExtent g (plan arcs).rows[r][k]).across / 2)
        (bandAt (spacingOf g) (stopExtent g) (plan arcs).rows r +
          bandOf ((plan arcs).rows[r].map (stopExtent g)) / 2) := by
  have hstop := (((rowsOf_plan hr).mem_row r hrow _).mp (List.getElem_mem hk)).1
  have h := lookup_pack (spacingOf g) (Vector.ofFn fun u => sizeOrZero (g.nodes.get u))
    (rowsOf_plan hr).nodup r k hrow hk
  exact Option.some.inj ((hf _ hstop).symm.trans h)

/-- Every stop stands in the room of the placement, with all that it takes. -/
theorem seat_bounds (hm : Measured g) (hd : g.direction ∈ Direction.all) (hn : 0 ≤ g.nodeGap)
    (hk : 0 ≤ g.rankGap) {t : Stop g.nodes.length}
    (ht : t ∈ allStops (plan arcs).ranks (plan arcs).arcs) :
    (0 ≤ g.direction.across (f t) - (stopExtent g t).across / 2 ∧
      g.direction.across (f t) + (stopExtent g t).across / 2 ≤ breadth g arcs) ∧
    0 ≤ g.direction.along (f t) - (stopExtent g t).along / 2 ∧
      g.direction.along (f t) + (stopExtent g t).along / 2 ≤ depth g arcs := by
  have hrank := (rowsOf_plan hr).rank_lt t ht
  have hmem : t ∈ (plan arcs).rows[t.rank (plan arcs).ranks] :=
    ((rowsOf_plan hr).mem_row _ hrank t).mpr ⟨ht, rfl⟩
  obtain ⟨k, hlt, hget⟩ := List.getElem_of_mem hmem
  have hplace := hf.getElem hr hrank hlt
  have hacross := leftAt_bounds (spacingOf g) hn (fun t => (extent_nonneg hm t).1)
    (List.getElem_mem hrank) hlt
  have halong := bandAt_bounds (spacingOf g) hk (fun t => (extent_nonneg hm t).2) hrank
  have hthick : (stopExtent g t).along ≤ _ := along_le_bandOf hmem
  rw [hget] at hplace hacross
  rw [hplace, across_orient hd, along_orient]
  simp only [breadth, depth]
  exact ⟨⟨by linarith, by linarith⟩, by linarith, by linarith⟩

/-- The longest row reaches both ends of the room. -/
theorem exists_seat_across (hd : g.direction ∈ Direction.all) (hne : g.nodes ≠ []) :
    (∃ t ∈ allStops (plan arcs).ranks (plan arcs).arcs,
      g.direction.across (f t) - (stopExtent g t).across / 2 = 0) ∧
    ∃ t ∈ allStops (plan arcs).ranks (plan arcs).arcs,
      g.direction.across (f t) + (stopExtent g t).across / 2 = breadth g arcs := by
  obtain ⟨⟨row, hrow, hlong⟩, -⟩ :=
    isGreatest_widestOf (spacingOf g) (stopExtent g) (rows_ne_nil hr hne)
  obtain ⟨r, hlt, rfl⟩ := List.getElem_of_mem hrow
  obtain ⟨u, hu⟩ := exists_node_in_row hr hne hlt
  have hnil := List.ne_nil_of_mem hu
  have hpos := List.length_pos_iff.mpr hnil
  have hlast : (plan arcs).rows[r].length - 1 < (plan arcs).rows[r].length := by omega
  obtain ⟨hleft, hright⟩ := leftAt_ends (spacingOf g) hnil hlong.symm
  have hright := hright hlast
  have hstop : ∀ k (h : k < (plan arcs).rows[r].length),
      (plan arcs).rows[r][k] ∈ allStops (plan arcs).ranks (plan arcs).arcs := fun k h =>
    (((rowsOf_plan hr).mem_row r hlt _).mp (List.getElem_mem h)).1
  refine ⟨⟨_, hstop 0 hpos, ?_⟩, _, hstop _ hlast, ?_⟩
  · rw [hf.getElem hr hlt hpos, across_orient hd]
    simp only [breadth] at hleft ⊢
    linarith
  · rw [hf.getElem hr hlt hlast, across_orient hd]
    simp only [breadth] at hright ⊢
    linarith

theorem Packs.along_of_mem {r : ℕ} (hrow : r < (plan arcs).rows.length)
    {t : Stop g.nodes.length} (ht : t ∈ (plan arcs).rows[r]) : g.direction.along (f t) =
      bandAt (spacingOf g) (stopExtent g) (plan arcs).rows r +
        bandOf ((plan arcs).rows[r].map (stopExtent g)) / 2 := by
  obtain ⟨k, hk, rfl⟩ := List.getElem_of_mem ht
  rw [hf.getElem hr hrow hk, along_orient]

/-- The first and the last rank reach both ends of the room. -/
theorem exists_seat_along (hm : Measured g) (hne : g.nodes ≠ []) :
    (∃ u, g.direction.along (f (.node u)) - (stopExtent g (.node u)).along / 2 = 0) ∧
    ∃ u, g.direction.along (f (.node u)) + (stopExtent g (.node u)).along / 2 =
      depth g arcs := by
  have hpos : 0 < (plan arcs).rows.length := List.length_pos_iff.mpr (rows_ne_nil hr hne)
  have hlast : (plan arcs).rows.length - 1 < (plan arcs).rows.length := by omega
  obtain ⟨u, hu, hfirst⟩ := exists_thickest hr hm hne hpos
  obtain ⟨w, hw, hend⟩ := exists_thickest hr hm hne hlast
  refine ⟨⟨u, ?_⟩, w, ?_⟩
  · rw [hf.along_of_mem hr hpos hu, hfirst, bandAt, offset_zero]
    ring
  · have hdepth := bandAt_last (spacingOf g) (stopExtent g) (Nat.sub_add_cancel hpos)
    rw [hf.along_of_mem hr hlast hw, hend, depth, ← hdepth]
    ring

end Seats

end Layered

end Scrawl
