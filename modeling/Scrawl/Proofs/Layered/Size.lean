import Scrawl.Proofs.Layered.Filling

/-!
# Scrawl.Proofs.Layered.Size — how large a layout is

* `membersOf`: the members of a rank, edges that pass included.
* `layout_size`: the size of a layout, from the members of its ranks; `layout_size_triangle` is one
  whose widest rank ends with an edge that passes.
-/

namespace Scrawl.Layered

variable {n : ℕ}

/-- The members of a rank: nodes, and edges that pass. -/
def membersOf (p : Plan n) (r : ℕ) : List (Stop n) :=
  (allStops p.ranks p.arcs).filter (·.rank p.ranks == r)

/-- The room of members side by side, with a node gap between each two. -/
noncomputable def rowLength (g : Graph ℝ) (members : List (Stop g.nodes.length)) : ℝ :=
  (members.map fun t => (stopExtent g t).across).sum + g.nodeGap * (members.length - 1)

theorem rowLength_perm {g : Graph ℝ} {row row' : List (Stop g.nodes.length)} (h : row.Perm row') :
    rowLength g row = rowLength g row' := by
  rw [rowLength, rowLength, h.length_eq, (h.map _).sum_eq]

theorem row_perm {arcs : List (Arc n)} {r : ℕ} (hrow : r < (plan arcs).rows.length) :
    (plan arcs).rows[r].Perm (membersOf (plan arcs) r) := by
  unfold membersOf
  have hperm : RowsPerm (plan arcs).rows (rows (plan arcs).ranks (plan arcs).arcs) :=
    order_perm _ _
  have hrow' := hperm.length_eq ▸ hrow
  simpa [rows] using List.Forall₂.get hperm hrow hrow'

theorem sum_map_eq_range {β : Type} (f : β → ℝ) (l : List β) (default : β) :
    (l.map f).sum = ∑ r ∈ Finset.range l.length, f (l.getD r default) := by
  induction l with
  | nil => rfl
  | cons x l ih =>
    rw [List.map_cons, List.sum_cons, ih, List.length_cons, Finset.sum_range_succ', add_comm]
    rfl

/-- A graph without nodes is as large as its margins. -/
theorem frame_of_nil {g : Graph ℝ} (arcs : List (Arc g.nodes.length)) (hj : g.Joined)
    (hnil : g.nodes = []) :
    (frame (placeAlong g arcs)).2 = (2 * g.marginX, 2 * g.marginY) := by
  have hnodes : (placeAlong g arcs).nodes = [] := by
    rw [← List.length_eq_zero_iff, nodes_placeAlong_length, hnil, List.length_nil]
  have hedges : (placeAlong g arcs).edges = [] := by
    rw [← List.length_eq_zero_iff, edges_placeAlong_length, hj.edges_eq_nil hnil, List.length_nil]
  exact frame_of_empty hnodes hedges

/-- **The size of a layout in closed form.**  For a graph whose edges join its nodes, without loops
and with at most one edge between any two nodes, with positive sizes, gaps that are not negative and
one of the four directions: ranks are in use from zero on without a gap.  Across the ranks the size
is the length of the longest rank, which is what its members take and a node gap between each two,
edges that pass included; along the ranks it is the sum of what the thickest member of each rank
takes and a rank gap between each two ranks.  Two margins are added to either. -/
theorem layout_size (g : Graph ℝ) (hj : g.Joined) (hloops : ∀ e ∈ g.edges, e.source ≠ e.target)
    (hsimple : g.Simple) (hm : Measured g) (hd : g.direction ∈ Direction.all)
    (hn : 0 ≤ g.nodeGap) (hk : 0 ≤ g.rankGap) :
    ∃ (arcs : List (Arc g.nodes.length)) (g' : Graph ℝ) (size : ℝ × ℝ),
      g.arcs = .ok arcs ∧ layout g = .ok (g', size) ∧
      (g.nodes = [] → size = (2 * g.marginX, 2 * g.marginY)) ∧
      (g.nodes ≠ [] → ∃ (count : ℕ) (longest : ℝ) (thickness : ℕ → ℝ),
        (∀ r, membersOf (plan arcs) r ≠ [] ↔ r < count) ∧
        IsGreatest {l | ∃ r < count, l = rowLength g (membersOf (plan arcs) r)} longest ∧
        (∀ r < count, IsGreatest {l | ∃ t ∈ membersOf (plan arcs) r, l = (stopExtent g t).along}
          (thickness r)) ∧
        let room := g.direction.sizeOf longest
          (∑ r ∈ Finset.range count, thickness r + g.rankGap * (count - 1))
        size = (room.1 + 2 * g.marginX, room.2 + 2 * g.marginY)) := by
  obtain ⟨arcs, ha, hr⟩ := Graph.arcs_of_joined hj
  have hl := layout_of_arcs ha
  refine ⟨arcs, _, _, ha, hl, frame_of_nil arcs hj, fun hne => ?_⟩
  have hf : Packs g arcs (centerOf g arcs) := lookup_centerOf hr
  obtain ⟨hacross, halong⟩ := placement_fills hf hr hm hn hk hd hloops hsimple hne
  have hrow : ∀ r (h : r < (plan arcs).rows.length), (plan arcs).rows[r] ≠ [] := fun r h => by
    obtain ⟨u, hu⟩ := exists_node_in_row hr hne h
    exact List.ne_nil_of_mem hu
  have hlength : ∀ r (h : r < (plan arcs).rows.length),
      spanOf g.nodeGap ((plan arcs).rows[r].map (stopExtent g)) =
        rowLength g (membersOf (plan arcs) r) := fun r h =>
    (spanOf_eq (spacingOf g) (hrow r h)).trans (rowLength_perm (row_perm h))
  refine ⟨(plan arcs).rows.length, breadth g arcs,
    fun r => bandOf (((plan arcs).rows.getD r []).map (stopExtent g)), fun r => ⟨fun h => ?_,
    fun h hnil => hrow r h (List.perm_nil.mp (hnil ▸ row_perm h))⟩, ?_, fun r h => ?_, ?_⟩
  · obtain ⟨t, ht⟩ := List.exists_mem_of_ne_nil _ h
    obtain ⟨ht, hrt⟩ := List.mem_filter.mp ht
    exact eq_of_beq hrt ▸ (rowsOf_plan hr).rank_lt t ht
  · obtain ⟨⟨row, hmem, hlong⟩, hmax⟩ := isGreatest_widestOf (spacingOf g) (stopExtent g)
      (rows_ne_nil hr hne)
    obtain ⟨r, h, rfl⟩ := List.getElem_of_mem hmem
    refine ⟨⟨r, h, hlong.trans (hlength r h)⟩, ?_⟩
    rintro l ⟨q, hq, rfl⟩
    exact hmax ⟨_, List.getElem_mem hq, (hlength q hq).symm⟩
  · simp only [List.getD_eq_getElem _ _ h, ← (row_perm h).mem_iff]
    exact isGreatest_bandOf _ (hrow r h)
  · have hdepth : depth g arcs = ∑ r ∈ Finset.range (plan arcs).rows.length,
        bandOf (((plan arcs).rows.getD r []).map (stopExtent g)) +
          g.rankGap * ((plan arcs).rows.length - 1) := by
      rw [depth, depthOf, sum_map_eq_range _ _ []]
    rw [← hdepth]
    exact frame_size (g := placeAlong g arcs) hd hacross halong

/-- The arcs of the triangle. -/
def triangleArcs : List (Arc triangle.nodes.length) :=
  let a : Fin triangle.nodes.length := ⟨0, by decide⟩
  let b : Fin triangle.nodes.length := ⟨1, by decide⟩
  let c : Fin triangle.nodes.length := ⟨2, by decide⟩
  [⟨0, a, b⟩, ⟨1, b, c⟩, ⟨2, c, a⟩]

theorem extent_triangle (u : Fin triangle.nodes.length) :
    stopExtent triangle (.node u) = ⟨20, 40⟩ := by
  have hsize : ∀ v ∈ triangle.nodes, v.size? = some (40, 20) := by
    simp [triangle, trio, Node.size?]
  rw [stopExtent_node, sizeOrZero, hsize _ (List.get_mem _ u)]
  rfl

/-- The members of the three ranks. -/
theorem membersOf_triangle : membersOf (plan triangleArcs) 0 = [.node ⟨0, by decide⟩] ∧
    membersOf (plan triangleArcs) 1 = [.node ⟨1, by decide⟩, .via 2 1] ∧
    membersOf (plan triangleArcs) 2 = [.node ⟨2, by decide⟩] ∧
    membersOf (plan triangleArcs) 3 = [] := by
  decide +kernel

/-- The triangle takes three nodes with two gaps along its ranks; across them it takes a node, a gap
and the edge that passes. -/
theorem layout_size_triangle : triangle.Joined ∧
    (∀ e ∈ triangle.edges, e.source ≠ e.target) ∧ triangle.Simple ∧ Measured triangle ∧
    triangle.direction ∈ Direction.all ∧ 0 ≤ triangle.nodeGap ∧ 0 ≤ triangle.rankGap ∧
    ∃ g', layout triangle = .ok (g', (240, 70)) := by
  have hj : triangle.Joined := by simp [Graph.Joined, Graph.ids, triangle, trio]
  have hloops : ∀ e ∈ triangle.edges, e.source ≠ e.target := by simp [triangle, trio]
  have hsimple : triangle.Simple := by simp [Graph.Simple, triangle, trio]
  have hm : Measured triangle := measured_trio _ _
  have hd : triangle.direction ∈ Direction.all := by simp [triangle, trio, Direction.all]
  have hn : 0 ≤ triangle.nodeGap := by norm_num [triangle, trio]
  have hk : 0 ≤ triangle.rankGap := by norm_num [triangle, trio]
  refine ⟨hj, hloops, hsimple, hm, hd, hn, hk, ?_⟩
  obtain ⟨arcs, g', size, ha, hl, -, hsize⟩ := layout_size triangle hj hloops hsimple hm hd hn hk
  obtain rfl : triangleArcs = arcs := Except.ok.inj ha
  obtain ⟨count, longest, thickness, hcount, hlongest, hthickness, rfl⟩ :=
    hsize (by simp [triangle, trio])
  obtain ⟨h0, h1, h2, h3⟩ := membersOf_triangle
  obtain rfl : count = 3 := by
    have hlow := (hcount 2).mp (by simp [h2])
    have hhigh := mt (hcount 3).mpr (by simp [h3])
    omega
  have hgap : triangle.nodeGap = 30 := rfl
  obtain rfl : longest = 50 := by
    refine hlongest.unique ⟨⟨1, by norm_num, ?_⟩, ?_⟩
    · rw [h1]
      norm_num [rowLength, extent_triangle, stopExtent_via, hgap]
    · rintro l ⟨r, hr, rfl⟩
      interval_cases r <;>
        norm_num [h0, h1, h2, rowLength, extent_triangle, stopExtent_via, hgap]
  have hthick : ∀ r < 3, thickness r = 40 := fun r hr => by
    refine (hthickness r hr).unique ?_
    interval_cases r <;>
      simp [h0, h1, h2, extent_triangle, stopExtent_via, IsGreatest, upperBounds]
  have hsum : ∑ r ∈ Finset.range 3, thickness r = 120 := by
    simp only [Finset.sum_range_succ, Finset.sum_range_zero, hthick 0 (by norm_num),
      hthick 1 (by norm_num), hthick 2 (by norm_num)]
    norm_num
  rw [hsum] at hl
  refine ⟨g', hl.trans ?_⟩
  norm_num [triangle, trio, Direction.sizeOf, isHorizontal_cases]

end Scrawl.Layered
