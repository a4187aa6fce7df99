import Scrawl.Proofs.Layered.Separation

/-!
# Scrawl.Proofs.Layered.Routing — edges run from border to border over the bands between

The line from the centre of a box towards another point leaves the box on its border, whatever the
shape of the box and wherever the point lies.  The middle points of an edge are no centres of its
ends: stops stand on the middle lines of other bands, and a point beside the line between two
centres has come half the way along it, however far aside it is.

* `onBorder_borderPoint`: where the line leaves the box.
* `directMiddle_ne`: the middle point of an edge between neighbouring ranks.
* `pointOf_ne`: the middle points of an edge that passes ranks.
* `layout_routes`: the routes of a layout.
-/

namespace Scrawl

/-- The point lies on one of the sides of the box. -/
def OnBorder (b : Box ℝ) (p : Point ℝ) : Prop :=
  b.left ≤ p.x ∧ p.x ≤ b.right ∧ b.top ≤ p.y ∧ p.y ≤ b.bottom ∧
    (p.x = b.left ∨ p.x = b.right ∨ p.y = b.top ∨ p.y = b.bottom)

namespace Layered

variable {n : ℕ}

/-! ### Borders -/

theorem onBorder_shift {w h : ℝ} {c p : Point ℝ} (hp : OnBorder (Node.boxAt w h c) p)
    (v : Point ℝ) : OnBorder (Node.boxAt w h (c.shift v)) (p.shift v) := by
  obtain ⟨hleft, hright, htop, hbottom, hside⟩ := hp
  simp only [Node.boxAt] at hleft hright htop hbottom hside
  simp only [OnBorder, Node.boxAt, Point.shift]
  refine ⟨by linarith, by linarith, by linarith, by linarith, ?_⟩
  rcases hside with h | h | h | h
  · exact Or.inl (by linarith)
  · exact Or.inr (Or.inl (by linarith))
  · exact Or.inr (Or.inr (Or.inl (by linarith)))
  · exact Or.inr (Or.inr (Or.inr (by linarith)))

/-- A step from the centre of a box that goes as far as one of its sides and no further than the
others ends on the border. -/
theorem onBorder_of_reach {w h dx dy k : ℝ} (c : Point ℝ) (hk : 0 ≤ k) (hx : |dx| * k ≤ w / 2)
    (hy : |dy| * k ≤ h / 2) (hreach : |dx| * k = w / 2 ∨ |dy| * k = h / 2) :
    OnBorder (Node.boxAt w h c) ⟨c.x + dx * k, c.y + dy * k⟩ := by
  have habs : ∀ d : ℝ, |d| * k = |d * k| := fun d => by rw [abs_mul, abs_of_nonneg hk]
  rw [habs] at hx hy
  rw [habs, habs] at hreach
  obtain ⟨hx₁, hx₂⟩ := abs_le.mp hx
  obtain ⟨hy₁, hy₂⟩ := abs_le.mp hy
  have hside : ∀ {a b : ℝ}, |a| = b / 2 → a = b / 2 ∨ a = -(b / 2) := fun {a b} hab => by
    rcases abs_choice a with ha | ha
    · exact Or.inl (by linarith)
    · exact Or.inr (by linarith)
  norm_num only [OnBorder, Node.boxAt]
  refine ⟨by linarith, by linarith, by linarith, by linarith, ?_⟩
  rcases hreach with hreach | hreach <;> rcases hside hreach with h | h
  · exact Or.inr (Or.inl (by linarith))
  · exact Or.inl (by linarith)
  · exact Or.inr (Or.inr (Or.inr (by linarith)))
  · exact Or.inr (Or.inr (Or.inl (by linarith)))

/-- How far a vector is stretched to go from the centre of a box, of which `w` and `h` are the half
sizes, to the nearest side in its way. -/
noncomputable def borderScale (w h dx dy : ℝ) : ℝ :=
  if dx = 0 then h / |dy| else if dy = 0 then w / |dx| else min (w / |dx|) (h / |dy|)

/-- The vector is stretched as far as a side and no further than the others. -/
theorem borderScale_reaches {w h dx dy : ℝ} (hw : 0 < w) (hh : 0 < h) (hne : dx ≠ 0 ∨ dy ≠ 0) :
    0 ≤ borderScale w h dx dy ∧
      |dx| * borderScale w h dx dy ≤ w ∧ |dy| * borderScale w h dx dy ≤ h ∧
      (|dx| * borderScale w h dx dy = w ∨ |dy| * borderScale w h dx dy = h) := by
  have hfits : ∀ {d : ℝ} (b : ℝ), d ≠ 0 → |d| * (b / |d|) = b := fun b hd =>
    mul_div_cancel₀ _ (abs_ne_zero.mpr hd)
  have hnonneg : ∀ (d : ℝ) {b : ℝ}, 0 < b → 0 ≤ b / |d| := fun d _ hb =>
    div_nonneg hb.le (abs_nonneg d)
  unfold borderScale
  split_ifs with hx hy
  · have hy : dy ≠ 0 := hne.resolve_left (fun h => h hx)
    refine ⟨hnonneg dy hh, ?_, (hfits h hy).le, Or.inr (hfits h hy)⟩
    rw [hx, abs_zero, zero_mul]
    exact hw.le
  · refine ⟨hnonneg dx hw, (hfits w hx).le, ?_, Or.inl (hfits w hx)⟩
    rw [hy, abs_zero, zero_mul]
    exact hh.le
  · rcases le_total (w / |dx|) (h / |dy|) with hle | hle
    · rw [min_eq_left hle]
      have hyk := mul_le_mul_of_nonneg_left hle (abs_nonneg dy)
      exact ⟨hnonneg dx hw, (hfits w hx).le, hyk.trans (hfits h hy).le, Or.inl (hfits w hx)⟩
    · rw [min_eq_right hle]
      have hxk := mul_le_mul_of_nonneg_left hle (abs_nonneg dx)
      exact ⟨hnonneg dy hh, hxk.trans (hfits w hx).le, (hfits h hy).le, Or.inr (hfits h hy)⟩

theorem borderPoint_eq (p : Placed ℝ) {toward : Point ℝ}
    (hne : toward.x - p.center.x ≠ 0 ∨ toward.y - p.center.y ≠ 0) :
    borderPoint p toward =
      ⟨p.center.x + (toward.x - p.center.x) * borderScale (p.width / 2) (p.height / 2)
        (toward.x - p.center.x) (toward.y - p.center.y),
      p.center.y + (toward.y - p.center.y) * borderScale (p.width / 2) (p.height / 2)
        (toward.x - p.center.x) (toward.y - p.center.y)⟩ := by
  have htwo : (2.0 : ℝ) = 2 := by norm_num
  have hzero : (0.0 : ℝ) = 0 := by norm_num
  have hmove : ¬ (toward.x - p.center.x = 0 ∧ toward.y - p.center.y = 0) := by
    rintro ⟨hx, hy⟩
    exact hne.elim (fun h => h hx) fun h => h hy
  unfold borderPoint borderScale
  simp only [htwo, hzero, Scalar.min_eq, beq_iff_eq, Bool.and_eq_true, if_neg hmove]
  rfl

/-- Different points differ in a coordinate. -/
theorem moves_of_ne {p q : Point ℝ} (hne : q ≠ p) : q.x - p.x ≠ 0 ∨ q.y - p.y ≠ 0 := by
  by_contra hstay
  push Not at hstay
  refine hne ?_
  rw [show q = ⟨q.x, q.y⟩ from rfl, sub_eq_zero.mp hstay.1, sub_eq_zero.mp hstay.2]

/-- **The line from the centre of a box to another point leaves the box on its border.** -/
theorem onBorder_borderPoint {p : Placed ℝ} (hw : 0 < p.width) (hh : 0 < p.height)
    {toward : Point ℝ} (hne : toward ≠ p.center) :
    OnBorder (Node.boxAt p.width p.height p.center) (borderPoint p toward) := by
  have hmove := moves_of_ne hne
  obtain ⟨hpos, hx, hy, hreach⟩ := borderScale_reaches (half_pos hw) (half_pos hh) hmove
  rw [borderPoint_eq p hmove]
  exact onBorder_of_reach p.center hpos hx hy hreach

/-- A route over points that are not the centres of the boxes begins and ends on their borders. -/
theorem onBorder_routeOver {s t : Placed ℝ} (hs : 0 < s.width ∧ 0 < s.height)
    (ht : 0 < t.width ∧ 0 < t.height) {p : Point ℝ} {ps : List (Point ℝ)}
    (hne : ∀ q ∈ p :: ps, q ≠ s.center ∧ q ≠ t.center) :
    ∃ first last, routeOver s t p ps = first :: (p :: ps ++ [last]) ∧
      OnBorder (Node.boxAt s.width s.height s.center) first ∧
      OnBorder (Node.boxAt t.width t.height t.center) last := by
  have hlast : (p :: ps).getLastD p ∈ p :: ps := by
    rw [List.getLastD_cons]
    exact List.getLastD_mem_cons
  exact ⟨_, _, rfl, onBorder_borderPoint hs.1 hs.2 (hne p List.mem_cons_self).1,
    onBorder_borderPoint ht.1 ht.2 (hne _ hlast).2⟩

/-- The same of a route over the points that are given, or over one other point. -/
theorem onBorder_routeThrough {s t : Placed ℝ} (hs : 0 < s.width ∧ 0 < s.height)
    (ht : 0 < t.width ∧ 0 < t.height) {via : List (Point ℝ)} {direct : Point ℝ}
    (hvia : ∀ q ∈ via, q ≠ s.center ∧ q ≠ t.center)
    (hdirect : direct ≠ s.center ∧ direct ≠ t.center) :
    ∃ first last ps, routeThrough s t via direct = first :: (ps ++ [last]) ∧
      OnBorder (Node.boxAt s.width s.height s.center) first ∧
      OnBorder (Node.boxAt t.width t.height t.center) last ∧
      (via ≠ [] → ps = via) ∧ (via = [] → ps.length = 1) := by
  cases via with
  | nil =>
    have honly : ∀ q ∈ [direct], q ≠ s.center ∧ q ≠ t.center := fun q hq =>
      List.mem_singleton.mp hq ▸ hdirect
    obtain ⟨first, last, hroute, hfirst, hlast⟩ := onBorder_routeOver hs ht honly
    exact ⟨first, last, [direct], hroute, hfirst, hlast, fun h => absurd rfl h, fun _ => rfl⟩
  | cons p ps =>
    obtain ⟨first, last, hroute, hfirst, hlast⟩ := onBorder_routeOver hs ht hvia
    exact ⟨first, last, p :: ps, hroute, hfirst, hlast, fun _ => rfl, nofun⟩

/-! ### Middle points between neighbouring ranks -/

theorem midpoint_eq (p q : Point ℝ) : midpoint p q = ⟨(p.x + q.x) / 2, (p.y + q.y) / 2⟩ := by
  norm_num only [midpoint]

/-- However far it is moved aside, the middle point has come half the way from one centre to the
other. -/
theorem directMiddle_halfway (gap : ℝ) (share : Share) (s t : Placed ℝ) (inOrder : Bool) :
    2 * (((directMiddle gap share s t inOrder).x - s.center.x) * (t.center.x - s.center.x) +
      ((directMiddle gap share s t inOrder).y - s.center.y) * (t.center.y - s.center.y)) =
    (t.center.x - s.center.x) ^ 2 + (t.center.y - s.center.y) ^ 2 := by
  unfold directMiddle
  dsimp only
  split_ifs
  · simp only [aside, midpoint_eq]
    ring
  · simp only [aside, midpoint_eq]
    ring
  · simp only [midpoint_eq]
    ring

/-- The middle point between two centres is neither of them. -/
theorem directMiddle_ne (gap : ℝ) (share : Share) {s t : Placed ℝ} (inOrder : Bool)
    (hne : s.center ≠ t.center) : directMiddle gap share s t inOrder ≠ s.center ∧
      directMiddle gap share s t inOrder ≠ t.center := by
  have hhalf := directMiddle_halfway gap share s t inOrder
  have hzero : (t.center.x - s.center.x) ^ 2 + (t.center.y - s.center.y) ^ 2 = 0 →
      s.center = t.center := by
    intro h
    have hx : t.center.x - s.center.x = 0 := by nlinarith [sq_nonneg (t.center.y - s.center.y)]
    have hy : t.center.y - s.center.y = 0 := by nlinarith [sq_nonneg (t.center.x - s.center.x)]
    rw [show s.center = ⟨s.center.x, s.center.y⟩ from rfl, ← sub_eq_zero.mp hx,
      ← sub_eq_zero.mp hy]
  refine ⟨fun h => hne (hzero ?_), fun h => hne (hzero ?_)⟩
  · rw [h] at hhalf
    linarith
  · rw [h] at hhalf
    linarith

/-! ### Middle points in ranks that are passed -/

/-- Points on different lines across the direction are different. -/
theorem orient_ne (d : Direction) {a b a' b' : ℝ} (h : b ≠ b') : orient d a b ≠ orient d a' b' := by
  intro heq
  cases d <;> simp only [orient, Point.mk.injEq, neg_inj] at heq
  · exact h heq.2
  · exact h heq.2
  · exact h heq.1
  · exact h heq.1
  · exact h heq.1

section Seated

variable {g : Graph ℝ} {arcs : List (Arc g.nodes.length)}
  {centers : List (Stop g.nodes.length × Point ℝ)} {x : Stop g.nodes.length → ℝ} {y : ℕ → ℝ}

theorem placedAt_pos (hm : Measured g) (f : Stop g.nodes.length → Point ℝ)
    (u : Fin g.nodes.length) : 0 < (placedAt g f u).width ∧ 0 < (placedAt g f u).height := by
  obtain ⟨w, h, hsize, hw, hh⟩ := hm _ (List.get_mem g.nodes u)
  simp only [placedAt, placedOf, sizeOrZero, hsize, Option.getD_some]
  exact ⟨hw, hh⟩

/-- Where a stop is seated, before the drawing is moved. -/
noncomputable def seatOf (g : Graph ℝ) (ranks : Vector ℕ g.nodes.length)
    (x : Stop g.nodes.length → ℝ) (y : ℕ → ℝ) (t : Stop g.nodes.length) : Point ℝ :=
  orient g.direction (x t) (y (t.rank ranks))

/-- No stop of another rank is seated at the centre of a node. -/
theorem seatOf_ne (hm : Measured g) (hk : 0 ≤ g.rankGap)
    (hs : Seating (plan arcs).ranks (plan arcs).arcs ⟨g.direction, g.nodeGap, g.rankGap⟩
      (stopExtent g) centers x y) {t : Stop g.nodes.length} {u : Fin g.nodes.length}
    (ht : t ∈ allStops (plan arcs).ranks (plan arcs).arcs)
    (hne : t.rank (plan arcs).ranks ≠ (plan arcs).ranks.get u) :
    seatOf g (plan arcs).ranks x y t ≠ seatOf g (plan arcs).ranks x y (.node u) := by
  have hthick := (extent_pos hm u).2
  have hthin := (extent_nonneg hm t).2
  refine orient_ne g.direction fun heq => ?_
  rcases Nat.lt_or_gt_of_ne hne with hlt | hgt
  · have hgap := hs.layered t ht (.node u) (mem_allStops_node u) hlt
    simp only at hgap
    linarith
  · have hgap := hs.layered (.node u) (mem_allStops_node u) t ht hgt
    simp only at hgap
    linarith

end Seated

/-! ### Routes -/

theorem rank_ne_of_plan {arcs : List (Arc n)} (hd : (arcs.map (·.edge)).Nodup) {a : Arc n}
    (ha : a ∈ arcs) (hl : a.isLoop = false) :
    (plan arcs).ranks.get a.source ≠ (plan arcs).ranks.get a.target := by
  have hlt := rank_lt_of_plan hd (mem_plan_arcs ha hl)
  split_ifs at hlt
  · exact hlt.ne'
  · exact hlt.ne

/-- **Edges run from border to border and pass every band on its middle line.**  For a graph whose
edges join its nodes, with positive sizes and gaps that are not negative: the centres of the nodes
of a rank lie on one line across the direction, the middle line of the band of the rank in the moved
drawing.  The route of an edge between two nodes begins on the border of the box of its source and
ends on that of its target.  Between them there is a point on the middle line of every rank strictly
between those of its ends, in the order from source to target, or, if there is no such rank, one
point. -/
theorem layout_routes (g : Graph ℝ) (hj : g.Joined) (hm : Measured g) (hn : 0 ≤ g.nodeGap)
    (hk : 0 ≤ g.rankGap) :
    ∃ (arcs : List (Arc g.nodes.length)) (g' : Graph ℝ) (size : ℝ × ℝ) (v : Point ℝ),
      g.arcs = .ok arcs ∧ g.Represents arcs ∧ layout g = .ok (g', size) ∧
      let ranks := (plan arcs).ranks
      let line : ℕ → ℝ := fun r => bandMiddle ⟨g.direction, g.nodeGap, g.rankGap⟩ (stopExtent g)
        (plan arcs).rows r + g.direction.along v
      (∀ u : Fin g.nodes.length, ∃ s c, g'.nodes[(u : ℕ)]? = some s ∧ s.center? = some c ∧
        g.direction.along c = line (ranks.get u)) ∧
      ∀ a ∈ arcs, a.source ≠ a.target → ranks.get a.source ≠ ranks.get a.target ∧
        ∃ (e : Edge ℝ) (b c : Box ℝ) (first last : Point ℝ) (via : List (Point ℝ)),
          g.edges[a.edge]? = some e ∧
          g'.edges[a.edge]? = some { e with points := first :: (via ++ [last]) } ∧
          HasBox g g' a.source b ∧ HasBox g g' a.target c ∧ OnBorder b first ∧ OnBorder c last ∧
          (passed ranks a ≠ [] → via.map g.direction.along = (passed ranks a).map line) ∧
          (passed ranks a = [] → via.length = 1) := by
  obtain ⟨arcs, g', size, x, v, ha, hr, hl, hg, hs⟩ := layout_moved g hj hm hn hk
  set y := bandMiddle ⟨g.direction, g.nodeGap, g.rankGap⟩ (stopExtent g) (plan arcs).rows
  have harranged := arranged_of_movedBy hr hg hs
  have halong : ∀ t : Stop g.nodes.length,
      g.direction.along ((seatOf g (plan arcs).ranks x y t).shift v) =
        y (t.rank (plan arcs).ranks) + g.direction.along v :=
    fun t => along_shift_orient g.direction v _ _
  refine ⟨arcs, g', size, v, ha, hr, hl, fun u => ⟨_, _, harranged.node u, rfl, halong (.node u)⟩,
    fun a haa hne => ?_⟩
  have hloop : a.isLoop = false := by simpa [Arc.isLoop] using hne
  have hrank := rank_ne_of_plan hr.nodup_edge haa hloop
  have hseats : ∀ t ∈ allStops (plan arcs).ranks (plan arcs).arcs,
      (pack ⟨g.direction, g.nodeGap, g.rankGap⟩ (Vector.ofFn fun u => sizeOrZero (g.nodes.get u))
        (plan arcs).rows).lookup t = some (seatOf g (plan arcs).ranks x y t) := hs.lookup
  obtain ⟨e, share, inOrder, route, he, hroute, hthrough⟩ :=
    placeAlong_route hr hseats haa hloop
  -- the points over which the edge is led are not the centres of its ends
  have hvia : ∀ q ∈ (passed (plan arcs).ranks a).map
      (fun r => seatOf g (plan arcs).ranks x y (.via a.edge r)),
      q ≠ seatOf g (plan arcs).ranks x y (.node a.source) ∧
        q ≠ seatOf g (plan arcs).ranks x y (.node a.target) := by
    intro q hq
    obtain ⟨r, hpassed, rfl⟩ := List.mem_map.mp hq
    have hstop := via_mem_allStops hr.nodup_edge haa hpassed
    have hbetween := mem_passed.mp hpassed
    exact ⟨seatOf_ne hm hk hs hstop (show r ≠ _ by omega),
      seatOf_ne hm hk hs hstop (show r ≠ _ by omega)⟩
  have hdirect := directMiddle_ne g.nodeGap share inOrder
    (s := placedAt g (seatOf g (plan arcs).ranks x y) a.source)
    (t := placedAt g (seatOf g (plan arcs).ranks x y) a.target)
    (seatOf_ne hm hk hs (mem_allStops_node a.source) hrank)
  obtain ⟨first, last, ps, hpoints, hfirst, hlast, hmany, hone⟩ :=
    onBorder_routeThrough (placedAt_pos hm _ a.source) (placedAt_pos hm _ a.target) hvia hdirect
  refine ⟨hrank, e, _, _, first.shift v, last.shift v, ps.map (·.shift v), he, ?_,
    harranged.hasBox hm a.source, harranged.hasBox hm a.target,
    onBorder_shift hfirst v, onBorder_shift hlast v, fun hne => ?_, fun hnil => ?_⟩
  · simp [hg.edges, hroute, hthrough, hpoints]
  · rw [hmany (mt List.map_eq_nil_iff.mp hne), List.map_map, List.map_map]
    exact List.map_congr_left fun r _ => halong (.via a.edge r)
  · rw [List.length_map]
    exact hone (by rw [hnil, List.map_nil])

/-- In the triangle the edge that closes the cycle runs from the box of its source to that of its
target, though it is turned round while the nodes are ranked. -/
theorem layout_routes_triangle : triangle.Joined ∧ Measured triangle ∧ 0 ≤ triangle.nodeGap ∧
    0 ≤ triangle.rankGap ∧ ∃ g' size, layout triangle = .ok (g', size) ∧
      ∃ (s t : Fin triangle.nodes.length) (b c : Box ℝ) (first last : Point ℝ)
        (via : List (Point ℝ)), triangle.number? "c" = some s ∧ triangle.number? "a" = some t ∧
        g'.edges[2]? = some ⟨"c", "a", first :: (via ++ [last])⟩ ∧
        HasBox triangle g' s b ∧ HasBox triangle g' t c ∧ OnBorder b first ∧ OnBorder c last := by
  have hj : triangle.Joined := by simp [Graph.Joined, Graph.ids, triangle, trio]
  have hm : Measured triangle := measured_trio _ _
  have hn : 0 ≤ triangle.nodeGap := by norm_num [triangle, trio]
  have hk : 0 ≤ triangle.rankGap := by norm_num [triangle, trio]
  obtain ⟨arcs, g', size, v, -, hr, hl, -, hroutes⟩ := layout_routes triangle hj hm hn hk
  obtain ⟨a, ha, hedge, hs, ht⟩ := hr.exists_arc
    (show triangle.edges[2]? = some ⟨"c", "a", []⟩ from rfl)
  have hne : a.source ≠ a.target := by
    intro h
    have hc := Graph.id_of_number? hs
    have ha' := Graph.id_of_number? ht
    rw [h, ha'] at hc
    simp at hc
  obtain ⟨-, e, b, c, first, last, via, he, he', hb, hc, hfirst, hlast, -⟩ := hroutes a ha hne
  rw [hedge] at he he'
  cases he
  exact ⟨hj, hm, hn, hk, g', size, hl, a.source, a.target, b, c, first, last, via, hs, ht, he', hb,
    hc, hfirst, hlast⟩

end Layered

end Scrawl
