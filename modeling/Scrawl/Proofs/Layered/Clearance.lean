import Scrawl.Proofs.Layered.Onward

/-!
# Scrawl.Proofs.Layered.Clearance — boxes beside passing edges

An edge that passes a rank has a point on the middle line of the rank, a node gap away from every
box there.  From that point its route slants out of the band to both sides, and it goes through a
box of the rank if and only if one of these two lines slants over the side of the box within half
the thickness of the box.

* `entered_iff_slants`: routes that pass a box.
* `layout_clearance`: the boxes that the routes of a layout pass; `layout_clearance_beam` has one
  that a route goes through.
-/

namespace Scrawl

theorem Apart.mono {gap gap' : ℝ} {s t : ℝ × ℝ} (h : Apart gap s t) (hle : gap' ≤ gap) :
    Apart gap' s t :=
  h.imp (fun h => by linarith) fun h => by linarith

namespace Layered

variable {d : Direction}

/-! ### Routes that pass a box -/

/-- The points before are on one side of the box along the ranks, those after on the other. -/
@[mk_iff]
inductive Passes (d : Direction) (w h : ℝ) (c : Point ℝ) (before after : List (Point ℝ)) : Prop
  | onward (first : ∀ p ∈ before, (extentOf d (w, h)).along / 2 ≤ d.along c - d.along p)
      (second : ∀ q ∈ after, (extentOf d (w, h)).along / 2 ≤ d.along q - d.along c)
  | back (first : ∀ p ∈ before, (extentOf d (w, h)).along / 2 ≤ d.along p - d.along c)
      (second : ∀ q ∈ after, (extentOf d (w, h)).along / 2 ≤ d.along c - d.along q)

section Passes

variable {w h : ℝ} {c m p q : Point ℝ} {before after : List (Point ℝ)}

theorem Passes.le_abs (hpass : Passes d w h c before after) (hlevel : d.along m = d.along c)
    {x : Point ℝ} (hx : x ∈ before ++ after) :
    (extentOf d (w, h)).along / 2 ≤ |d.along x - d.along m| := by
  rw [hlevel]
  rcases hpass with ⟨hbefore, hafter⟩ | ⟨hbefore, hafter⟩
  · rcases List.mem_append.mp hx with hx | hx
    · exact (hbefore x hx).trans ((le_abs_self _).trans (abs_sub_comm _ _).le)
    · exact (hafter x hx).trans (le_abs_self _)
  · rcases List.mem_append.mp hx with hx | hx
    · exact (hbefore x hx).trans (le_abs_self _)
    · exact (hafter x hx).trans ((le_abs_self _).trans (abs_sub_comm _ _).le)

/-- Two points before the box are on the same side of it, and two points after it. -/
theorem Passes.aside (hpass : Passes d w h c before after) {x y : Point ℝ}
    (hxy : x ∈ before ∧ y ∈ before ∨ x ∈ after ∧ y ∈ after) : Aside d w h c x y := by
  rcases hpass with ⟨hbefore, hafter⟩ | ⟨hbefore, hafter⟩ <;>
    rcases hxy with ⟨hx, hy⟩ | ⟨hx, hy⟩
  · exact .before (hbefore x hx) (hbefore y hy)
  · exact .behind (hafter x hx) (hafter y hy)
  · exact .behind (hbefore x hx) (hbefore y hy)
  · exact .before (hafter x hx) (hafter y hy)

/-- **A route that passes a box** beside it, at a point on the middle line of its band, goes through
the box if and only if a line from that point slants towards it. -/
theorem entered_iff_slants (hd : d ∈ Direction.all) (hw : 0 < w) (hh : 0 < h)
    (hlevel : d.along m = d.along c)
    (hbeside : Apart 0 (d.across m, d.across m) (d.acrossSpan (Node.boxAt w h c)))
    (hpass : Passes d w h c (before ++ [p]) (q :: after)) :
    (Node.boxAt w h c).Entered (before ++ p :: m :: q :: after) ↔
      Slants d (Node.boxAt w h c) m p ∨ Slants d (Node.boxAt w h c) m q := by
  have hp := hpass.le_abs (x := p) hlevel (by simp)
  have hq := hpass.le_abs (x := q) hlevel (by simp)
  rw [← crossed_iff_slants hd hw hh hlevel hbeside hp,
    ← crossed_iff_slants hd hw hh hlevel hbeside hq, crossed_comm (p := m) (q := p)]
  rw [Box.Entered, consecutive_append p, consecutive_cons_cons, consecutive_cons_cons]
  simp only [List.mem_append, List.mem_cons]
  constructor
  · rintro ⟨s, hs | rfl | rfl | hs, hcrossed⟩
    · obtain ⟨hfrom, hto⟩ := mem_of_mem_consecutive hs
      exact absurd hcrossed (not_crossed_of_aside hd (hpass.aside (Or.inl ⟨hfrom, hto⟩)))
    · exact Or.inl hcrossed
    · exact Or.inr hcrossed
    · obtain ⟨hfrom, hto⟩ := mem_of_mem_consecutive hs
      exact absurd hcrossed (not_crossed_of_aside hd (hpass.aside (Or.inr ⟨hfrom, hto⟩)))
  · rintro (hcrossed | hcrossed)
    · exact ⟨_, Or.inr (Or.inl rfl), hcrossed⟩
    · exact ⟨_, Or.inr (Or.inr (Or.inl rfl)), hcrossed⟩

end Passes

/-- A line that drifts over to a box by the gap before it, at most, does not slant over its side. -/
theorem not_slants_of_gentle {b : Box ℝ} {m q : Point ℝ} {gap : ℝ} (hgap : 0 ≤ gap)
    (hroom : (d.acrossSpan b).1 < (d.acrossSpan b).2) (hthick : 0 < d.thickness b)
    (hbeside : Apart gap (d.across m, d.across m) (d.acrossSpan b))
    (hgentle : |d.across q - d.across m| * (d.thickness b / 2) ≤ gap * |d.along q - d.along m|) :
    ¬ Slants d b m q := by
  have hfar := abs_nonneg (d.along q - d.along m)
  have hhalf : 0 < d.thickness b / 2 := half_pos hthick
  simp only [Apart] at hbeside
  rintro (⟨hside, hslants⟩ | ⟨hside, hslants⟩)
  · have hnear : gap ≤ (d.acrossSpan b).1 - d.across m := by
      rcases hbeside with hbeside | hbeside <;> linarith
    have hdrift := mul_le_mul_of_nonneg_right (le_abs_self (d.across q - d.across m)) hhalf.le
    have hreach := mul_le_mul_of_nonneg_right hnear hfar
    exact absurd hslants (not_lt.mpr ((hdrift.trans hgentle).trans hreach))
  · have hnear : gap ≤ d.across m - (d.acrossSpan b).2 := by
      rcases hbeside with hbeside | hbeside <;> linarith
    have hdrift := mul_le_mul_of_nonneg_right (neg_le_abs (d.across q - d.across m)) hhalf.le
    rw [neg_sub] at hdrift
    have hreach := mul_le_mul_of_nonneg_right hnear hfar
    exact absurd hslants (not_lt.mpr ((hdrift.trans hgentle).trans hreach))

/-! ### Layouts -/

/-- The ranks passed on the way to one of them, and those after it. -/
theorem passed_split {n : ℕ} {ranks : Vector ℕ n} {a : Arc n} {r : ℕ} (hr : r ∈ passed ranks a) :
    ∃ before after, passed ranks a = before ++ r :: after ∧
      ((∀ k ∈ ranks.get a.source :: before, k < r) ∧
          (∀ k ∈ ranks.get a.target :: after, r < k) ∨
        (∀ k ∈ ranks.get a.source :: before, r < k) ∧
          ∀ k ∈ ranks.get a.target :: after, k < r) := by
  obtain ⟨before, after, hsplit⟩ := List.append_of_mem hr
  refine ⟨before, after, hsplit, ?_⟩
  have hends := mem_passed.mp hr
  rcases Nat.lt_trichotomy (ranks.get a.source) (ranks.get a.target) with hlt | heq | hgt
  · have hsorted := passed_sorted hlt
    rw [hsplit, List.pairwise_append, List.pairwise_cons] at hsorted
    obtain ⟨-, ⟨hafter, -⟩, hbefore⟩ := hsorted
    refine Or.inl ⟨?_, ?_⟩
    · exact List.forall_mem_cons.mpr ⟨by omega, fun k hk => hbefore k hk r List.mem_cons_self⟩
    · exact List.forall_mem_cons.mpr ⟨by omega, hafter⟩
  · omega
  · have hsorted := passed_sorted (a := a.turned) hgt
    rw [passed_turned _ hgt.ne', List.pairwise_reverse, hsplit, List.pairwise_append,
      List.pairwise_cons] at hsorted
    obtain ⟨-, ⟨hafter, -⟩, hbefore⟩ := hsorted
    refine Or.inr ⟨?_, ?_⟩
    · exact List.forall_mem_cons.mpr ⟨by omega, fun k hk => hbefore k hk r List.mem_cons_self⟩
    · exact List.forall_mem_cons.mpr ⟨by omega, hafter⟩

section LaidOut

variable {g g' : Graph ℝ} {arcs : List (Arc g.nodes.length)} {point : Stop g.nodes.length → Point ℝ}
  (h : LaidOut g g' arcs point)
include h

/-- The points of a route from a box on over passed ranks are no farther from their stops along the
ranks than these reach. -/
theorem LaidOut.reached (hm : Measured g) (hd : g.direction ∈ Direction.all) (hk : 0 ≤ g.rankGap)
    {a : Arc g.nodes.length} (ha : a ∈ arcs) (v : Fin g.nodes.length)
    (hv : (plan arcs).ranks.get v ∉ passed (plan arcs).ranks a) {k : ℕ}
    (hfirst : k ∈ passed (plan arcs).ranks a) (ks : List ℕ)
    (hks : ∀ k ∈ ks, k ∈ passed (plan arcs).ranks a) :
    ∀ x ∈ borderPoint (placedAt g point v) (point (.via a.edge k)) ::
        ks.map fun r => point (.via a.edge r),
      ∃ t ∈ allStops (plan arcs).ranks (plan arcs).arcs,
        t.rank (plan arcs).ranks ∈ (plan arcs).ranks.get v :: ks ∧
        |g.direction.along x - g.direction.along (point t)| ≤ (stopExtent g t).along / 2 := by
  have hstop : ∀ k ∈ passed (plan arcs).ranks a,
      Stop.via a.edge k ∈ allStops (plan arcs).ranks (plan arcs).arcs :=
    fun k hk => via_mem_allStops h.represents.nodup_edge ha hk
  intro x hx
  rcases List.mem_cons.mp hx with rfl | hx
  · have hpos := placedAt_pos hm point v
    have hborder := along_of_onBorder hd (onBorder_borderPoint hpos.1 hpos.2
      (h.point_ne hm hk v (hstop k hfirst) fun heq => hv (heq ▸ hfirst)))
    rw [extentOf_placedAt] at hborder
    exact ⟨.node v, mem_allStops_node v, List.mem_cons_self, hborder⟩
  · obtain ⟨r, hr, rfl⟩ := List.mem_map.mp hx
    exact ⟨.via a.edge r, hstop r (hks r hr), List.mem_cons_of_mem _ hr, by simp [stopExtent_via]⟩

/-- **The route of an edge passes every box of a rank that the edge passes.** -/
theorem LaidOut.passes (hm : Measured g) (hd : g.direction ∈ Direction.all) (hk : 0 ≤ g.rankGap)
    {a : Arc g.nodes.length} (ha : a ∈ arcs) (u : Fin g.nodes.length)
    (hu : (plan arcs).ranks.get u ∈ passed (plan arcs).ranks a) (direct : Point ℝ) :
    ∃ before p q after, routeThrough (placedAt g point a.source) (placedAt g point a.target)
          ((passed (plan arcs).ranks a).map fun r => point (.via a.edge r)) direct =
        before ++ p :: point (.via a.edge ((plan arcs).ranks.get u)) :: q :: after ∧
      Passes g.direction (placedAt g point u).width (placedAt g point u).height
        (point (.node u)) (before ++ [p]) (q :: after) := by
  obtain ⟨ks, ms, hsplit, hsides⟩ := passed_split hu
  have hends : (plan arcs).ranks.get a.source ∉ passed (plan arcs).ranks a ∧
      (plan arcs).ranks.get a.target ∉ passed (plan arcs).ranks a := by
    constructor <;> exact fun h => by have := mem_passed.mp h; omega
  set f : ℕ → Point ℝ := fun r => point (.via a.edge r)
  have hne : (passed (plan arcs).ranks a).map f ≠ [] :=
    mt List.map_eq_nil_iff.mp (List.ne_nil_of_mem hu)
  rw [routeThrough_eq hne, List.head_map, List.getLast_map]
  set first := borderPoint (placedAt g point a.source) (f ((passed (plan arcs).ranks a).head _))
  set last := borderPoint (placedAt g point a.target) (f ((passed (plan arcs).ranks a).getLast _))
  -- the route before the box and the route after it, each from its end on
  have hbefore : ∀ x ∈ first :: ks.map f, _ := h.reached hm hd hk ha a.source hends.1
    (List.head_mem _) ks fun k hk => hsplit ▸ by simp [hk]
  have hafter : ∀ x ∈ last :: ms.map f, _ := h.reached hm hd hk ha a.target hends.2
    (List.getLast_mem _) ms fun k hk => hsplit ▸ by simp [hk]
  obtain ⟨before, p, hp⟩ : ∃ before p, first :: ks.map f = before ++ [p] :=
    ⟨_, _, (List.dropLast_concat_getLast (List.cons_ne_nil _ _)).symm⟩
  obtain ⟨q, after, hq⟩ : ∃ q after, ms.map f ++ [last] = q :: after :=
    List.exists_cons_of_ne_nil (by simp)
  refine ⟨before, p, q, after, ?_, ?_⟩
  · rw [hsplit, List.map_append, List.map_cons, List.append_assoc, List.cons_append,
      ← List.cons_append, hp, hq]
    simp [f]
  · rw [passes_iff, ← hp, ← hq, extentOf_placedAt]
    have hmem : ∀ x ∈ ms.map f ++ [last], x ∈ last :: ms.map f := fun x hx => by
      rw [List.mem_append, List.mem_singleton] at hx
      exact List.mem_cons.mpr hx.symm
    rcases hsides with ⟨hlow, hhigh⟩ | ⟨hhigh, hlow⟩
    · refine Or.inl ⟨fun x hx => ?_, fun x hx => ?_⟩
      · obtain ⟨t, ht, hrank, hnear⟩ := hbefore x hx
        exact (h.beside hk u ht hnear).1 (hlow _ hrank)
      · obtain ⟨t, ht, hrank, hnear⟩ := hafter x (hmem x hx)
        exact (h.beside hk u ht hnear).2 (hhigh _ hrank)
    · refine Or.inr ⟨fun x hx => ?_, fun x hx => ?_⟩
      · obtain ⟨t, ht, hrank, hnear⟩ := hbefore x hx
        exact (h.beside hk u ht hnear).2 (hhigh _ hrank)
      · obtain ⟨t, ht, hrank, hnear⟩ := hafter x (hmem x hx)
        exact (h.beside hk u ht hnear).1 (hlow _ hrank)

end LaidOut

/-- **An edge goes through a box of a rank that it passes just if it slants towards it.**  For a
graph whose edges join its nodes, with positive sizes, gaps that are not negative and one of the
four directions: the route of an edge has, for every node of a rank strictly between the ranks of
its ends, a point on the middle line of that rank, at least the node gap away from the box of the
node.  The route goes through the box if and only if one of the two lines at that point comes over
the nearer side of the box before it has left the half of the box along the ranks.  So it does not
if over neither of them the route drifts across the ranks faster than the node gap for half the
thickness of the box. -/
theorem layout_clearance (g : Graph ℝ) (hj : g.Joined) (hm : Measured g)
    (hd : g.direction ∈ Direction.all) (hn : 0 ≤ g.nodeGap) (hk : 0 ≤ g.rankGap) :
    ∃ (arcs : List (Arc g.nodes.length)) (g' : Graph ℝ) (size : ℝ × ℝ),
      g.arcs = .ok arcs ∧ g.Represents arcs ∧ layout g = .ok (g', size) ∧
      ∀ a ∈ arcs, ∀ u, (plan arcs).ranks.get u ∈ passed (plan arcs).ranks a →
        ∃ (e : Edge ℝ) (b : Box ℝ) (c p m q : Point ℝ) (before after : List (Point ℝ)),
          g.edges[a.edge]? = some e ∧
          g'.edges[a.edge]? = some { e with points := before ++ p :: m :: q :: after } ∧
          HasBox g g' u b ∧ HasCenter g' u c ∧ g.direction.along m = g.direction.along c ∧
          Apart g.nodeGap (g.direction.across m, g.direction.across m) (g.direction.acrossSpan b) ∧
          (b.Entered (before ++ p :: m :: q :: after) ↔
            Slants g.direction b m p ∨ Slants g.direction b m q) ∧
          ((∀ x ∈ [p, q], |g.direction.across x - g.direction.across m| *
              (g.direction.thickness b / 2) ≤
                g.nodeGap * |g.direction.along x - g.direction.along m|) →
            ¬ b.Entered (before ++ p :: m :: q :: after)) := by
  obtain ⟨arcs, g', size, point, ha, hl, h⟩ := layout_laidOut g hj hm hn hk
  refine ⟨arcs, g', size, ha, h.represents, hl, fun a haa u hu => ?_⟩
  have hne : a.source ≠ a.target := by
    intro heq
    have := mem_passed.mp hu
    rw [heq] at this
    omega
  obtain ⟨e, he, hroute⟩ := h.route a haa hne
  obtain ⟨before, p, q, after, hpoints, hpass⟩ := h.passes hm hd hk haa u hu _
  rw [hpoints] at hroute
  obtain ⟨hw, hh⟩ := placedAt_pos hm point u
  have hlevel := h.level (.via a.edge ((plan arcs).ranks.get u)) (.node u) rfl
  have hapart := h.apart hd _ (via_mem_allStops h.represents.nodup_edge haa hu) _
    (mem_allStops_node u) (by simp) rfl
  rw [acrossSpan_via] at hapart
  have hentered := entered_iff_slants hd hw hh hlevel (hapart.mono hn) hpass
  refine ⟨e, _, _, p, _, q, before, after, he, hroute, h.hasBox hm u, h.hasCenter u, hlevel,
    hapart, hentered, fun hgentle => hentered.not.mpr (not_or.mpr ?_)⟩
  obtain ⟨hroom, hthick⟩ := extentOf_pos g.direction hw hh
  have hroom : (g.direction.acrossSpan (stopBox g (point (.node u)) (.node u))).1 <
      (g.direction.acrossSpan (stopBox g (point (.node u)) (.node u))).2 := by
    rw [acrossSpan_stopBox]
    rw [extentOf_placedAt] at hroom
    linarith
  have hthick : 0 < g.direction.thickness (stopBox g (point (.node u)) (.node u)) := by
    rw [stopBox, thickness_boxAt]
    exact hthick
  exact ⟨not_slants_of_gentle hn hroom hthick hapart (hgentle p (by simp)),
    not_slants_of_gentle hn hroom hthick hapart (hgentle q (by simp))⟩

/-! ### A route through a box -/

/-- A wide box between two narrow ones, with an edge past it. -/
noncomputable def beam : Graph ℝ :=
  sized [("a", 40, 20), ("b", 400, 60), ("c", 40, 20)]
    [⟨"a", "b", []⟩, ⟨"b", "c", []⟩, ⟨"a", "c", []⟩]

/-- The arc past the wide box. -/
def pastArc : Arc beam.nodes.length := ⟨2, ⟨0, by decide⟩, ⟨2, by decide⟩⟩

/-- The arcs of the edges. -/
def beamArcs : List (Arc beam.nodes.length) :=
  [⟨0, ⟨0, by decide⟩, ⟨1, by decide⟩⟩, ⟨1, ⟨1, by decide⟩, ⟨2, by decide⟩⟩, pastArc]

/-- The wide box and the edge past it are in one rank, in this order. -/
theorem rows_beam : (plan beamArcs).rows =
    [[.node pastArc.source], [.node ⟨1, by decide⟩, .via 2 1], [.node pastArc.target]] := by
  set segments := segmentsOf (ranksOf beamArcs) beamArcs
  set middle : List (Stop beam.nodes.length) := [.node ⟨1, by decide⟩, .via 2 1]
  have hplan : (plan beamArcs).rows =
      order segments [[.node pastArc.source], middle, [.node pastArc.target]] := by
    have hback : backEdges beamArcs = [] := by decide +kernel
    have hrows : rows (ranksOf beamArcs) beamArcs =
        [[.node pastArc.source], middle, [.node pastArc.target]] := by decide +kernel
    rw [← hrows]
    simp only [plan, hback]
    rfl
  -- the wide box and the edge have the same neighbours, so that no sweep moves them
  have hdown : orderByMedian middle [.node pastArc.source] (before segments) = middle :=
    orderByMedian_of_sorted (by decide +kernel)
  have hup : orderByMedian middle [.node pastArc.target] (after segments) = middle :=
    orderByMedian_of_sorted (by decide +kernel)
  have hsingle : ∀ (v : Stop beam.nodes.length) fixed neighbours,
      orderByMedian [v] fixed neighbours = [v] :=
    fun v fixed neighbours => orderByMedian_of_sorted (List.pairwise_singleton _ _)
  rw [hplan]
  simp only [order, sweepBoth, sweepFrom, sweep, hsingle, hdown, hup, List.reverse_cons,
    List.reverse_nil, List.nil_append, List.cons_append]

theorem pack_beam : pack ⟨beam.direction, beam.nodeGap, beam.rankGap⟩
    (Vector.ofFn fun u => sizeOrZero (beam.nodes.get u)) (plan beamArcs).rows =
      [(.node pastArc.source, ⟨225, 10⟩), (.node ⟨1, by decide⟩, ⟨200, 100⟩),
        (.via 2 1, ⟨450, 100⟩), (.node pastArc.target, ⟨225, 190⟩)] := by
  have hsource : stopExtent beam (.node pastArc.source) = ⟨40, 20⟩ := stopExtent_node _ _
  have hwide : stopExtent beam (.node ⟨1, by decide⟩) = ⟨400, 60⟩ := stopExtent_node _ _
  have htarget : stopExtent beam (.node pastArc.target) = ⟨40, 20⟩ := stopExtent_node _ _
  have hvia : stopExtent beam (.via 2 1) = ⟨0, 0⟩ := stopExtent_via _ _ _
  have hdirection : beam.direction = .topBottom := rfl
  have hgaps : beam.nodeGap = 50 ∧ beam.rankGap = 50 := ⟨rfl, rfl⟩
  have hnone : (Scalar.ofNat 0 : ℝ) = 0 := Nat.cast_zero
  have hone : (Scalar.ofNat 1 : ℝ) = 1 := Nat.cast_one
  rw [stopExtent] at hsource hwide htarget hvia
  simp only [pack, rows_beam, List.map_cons, List.map_nil, hsource, hwide, htarget, hvia]
  norm_num [placeRows, placeRow, spanOf, bandOf, orient, Scalar.largestOrZero, Scalar.largest,
    Scalar.sum, Scalar.max, hnone, hone, hdirection, hgaps]

/-- The edge past the wide box goes through it. -/
theorem layout_clearance_beam : beam.Joined ∧ Measured beam ∧ beam.direction ∈ Direction.all ∧
    0 ≤ beam.nodeGap ∧ 0 ≤ beam.rankGap ∧ ∃ g' size route b, layout beam = .ok (g', size) ∧
      g'.edges[2]? = some { source := "a", target := "c", points := route } ∧
      HasBox beam g' ⟨1, by decide⟩ b ∧ b.Entered route := by
  have hj : beam.Joined := by simp [Graph.Joined, Graph.ids, beam, sized]
  have hm : Measured beam := measured_sized _ (by decide)
  have hd : beam.direction ∈ Direction.all := by simp [beam, sized, Direction.all]
  have hn : 0 ≤ beam.nodeGap := by norm_num [beam, sized]
  have hk : 0 ≤ beam.rankGap := by norm_num [beam, sized]
  refine ⟨hj, hm, hd, hn, hk, ?_⟩
  obtain ⟨arcs, g', size, ha, -, hl, hroutes⟩ := layout_clearance beam hj hm hd hn hk
  obtain ⟨arcs', g'', size', point, ha', hl', h⟩ := layout_laidOut beam hj hm hn hk
  obtain rfl : beamArcs = arcs := Except.ok.inj ha
  obtain rfl : beamArcs = arcs' := Except.ok.inj ha'
  obtain ⟨rfl, rfl⟩ := Prod.mk.inj (Except.ok.inj (hl'.symm.trans hl))
  obtain ⟨e, b, c, p, m, q, before, after, he, he', hb, hc, -, -, hentered, -⟩ :=
    hroutes pastArc (by decide) ⟨1, by decide⟩ (by decide +kernel)
  obtain ⟨f, hf, hf'⟩ := h.route pastArc (by decide) (by decide)
  obtain rfl : (⟨"a", "c", []⟩ : Edge ℝ) = e := Option.some.inj he
  obtain rfl : (⟨"a", "c", []⟩ : Edge ℝ) = f := Option.some.inj hf
  refine ⟨g'', size', _, b, hl', he', hb, hentered.mpr (Or.inr ?_)⟩
  -- where the wide box, the edge past it and the end of the edge are
  obtain ⟨v, hv⟩ := h.exists_shift
  rw [pack_beam] at hv
  have hwide : c = (⟨200, 100⟩ : Point ℝ).shift v :=
    (hc.unique (h.hasCenter ⟨1, by decide⟩)).trans (hv _ (mem_allStops_node ⟨1, by decide⟩) _ rfl)
  have hvia : point (.via 2 1) = (⟨450, 100⟩ : Point ℝ).shift v := hv _ (by decide +kernel) _ rfl
  have hend : placedAt beam point pastArc.target = Placed.shift ⟨⟨225, 190⟩, 40, 20⟩ v := by
    rw [Placed.shift, ← hv _ (mem_allStops_node pastArc.target) _ rfl]
    rfl
  have hborder : borderPoint (placedAt beam point pastArc.target) (point (.via 2 1)) =
      (⟨245, 182⟩ : Point ℝ).shift v := by
    rw [hend, hvia, borderPoint_shift]
    norm_num [borderPoint, Scalar.min, Scalar.abs]
  -- the route has three points, so that these are the last two
  obtain ⟨hm, hq⟩ : m = point (.via 2 1) ∧
      q = borderPoint (placedAt beam point pastArc.target) (point (.via 2 1)) := by
    have hpoints := congrArg Edge.points (Option.some.inj (he'.symm.trans hf'))
    have hpassed : passed (plan beamArcs).ranks pastArc = [1] := by decide +kernel
    simp only [hpassed, List.map_cons, List.map_nil, routeThrough, routeOver] at hpoints
    have hlength := congrArg List.length hpoints
    simp only [List.length_append, List.length_cons, List.length_nil] at hlength
    obtain rfl : before = [] := List.length_eq_zero_iff.mp (by omega)
    obtain ⟨-, hm, hq, -⟩ : p = _ ∧ m = _ ∧ q = _ ∧ after = _ := by simpa using hpoints
    exact ⟨hm, hq⟩
  rw [hq, hm, hborder, hvia, hb.eq_boxAt hc, hwide]
  have hsize : sizeOrZero (beam.nodes.get ⟨1, by decide⟩) = (400, 60) := rfl
  have hdirection : beam.direction = .topBottom := rfl
  rw [hsize, hdirection, slants_iff, thickness_boxAt, acrossSpan_boxAt]
  norm_num only [extentOf, isHorizontal_cases, Direction.across, Direction.along, Point.shift,
    Bool.false_eq_true, if_false, add_sub_add_right_eq_sub]
  exact Or.inr ⟨by linarith, by linarith⟩

end Layered

end Scrawl
