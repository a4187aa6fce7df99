import Scrawl.Proofs.Layered.Lines

/-!
# Scrawl.Proofs.Layered.Routes — routes where they are drawn

Routing commutes with moving the drawing, so that in a layout the route of an edge is the one
between the boxes of its ends where these stand in the end, over its stops where they stand.

* `routeThrough_shift`, `directMiddle_shift`: routes move with their boxes.
* `layout_laidOut`: what a layout is made of, with every position given in the moved drawing.
-/

namespace Scrawl.Layered

/-! ### Moving a route -/

section Shift

variable (v : Point ℝ)

/-- The box moved by a vector. -/
def Placed.shift (p : Placed ℝ) (v : Point ℝ) : Placed ℝ := { p with center := p.center.shift v }

theorem borderPoint_shift (p : Placed ℝ) (q : Point ℝ) :
    borderPoint (p.shift v) (q.shift v) = (borderPoint p q).shift v := by
  unfold borderPoint
  simp only [Placed.shift, Point.shift, add_sub_add_right_eq_sub]
  split
  · rfl
  · simp only [add_right_comm]

theorem midpoint_comm (p q : Point ℝ) : midpoint p q = midpoint q p := by
  simp only [midpoint, add_comm]

theorem midpoint_shift (p q : Point ℝ) :
    midpoint (p.shift v) (q.shift v) = (midpoint p q).shift v := by
  simp only [midpoint_eq, Point.shift, Point.mk.injEq]
  constructor <;> ring

theorem aside_shift (a b p : Point ℝ) (distance : ℝ) :
    aside (a.shift v) (b.shift v) distance (p.shift v) = (aside a b distance p).shift v := by
  simp only [aside, Point.shift, add_sub_add_right_eq_sub, Point.mk.injEq]
  constructor <;> ring

theorem directMiddle_shift (gap : ℝ) (share : Share) (s t : Placed ℝ) (inOrder : Bool) :
    directMiddle gap share (s.shift v) (t.shift v) inOrder =
      (directMiddle gap share s t inOrder).shift v := by
  unfold directMiddle
  simp only [Placed.shift, midpoint_shift, aside_shift]
  split_ifs <;> rfl

theorem routeOver_shift (s t : Placed ℝ) (p : Point ℝ) (ps : List (Point ℝ)) :
    routeOver (s.shift v) (t.shift v) (p.shift v) (ps.map (·.shift v)) =
      (routeOver s t p ps).map (·.shift v) := by
  have hlast : (p.shift v :: ps.map (·.shift v)).getLastD (p.shift v) =
      ((p :: ps).getLastD p).shift v := by
    rw [List.getLastD_cons, List.getLastD_cons, List.getLastD_map]
  simp only [routeOver, hlast, borderPoint_shift, List.map_cons, List.map_append, List.map_nil]

theorem routeThrough_shift (s t : Placed ℝ) (via : List (Point ℝ)) (direct : Point ℝ) :
    routeThrough (s.shift v) (t.shift v) (via.map (·.shift v)) (direct.shift v) =
      (routeThrough s t via direct).map (·.shift v) := by
  cases via with
  | nil => exact routeOver_shift v s t direct []
  | cons p ps => exact routeOver_shift v s t p ps

end Shift

/-! ### Layouts -/

/-- `g'` is a layout of `g` along the arcs, and `point` says where the stops stand in it. -/
structure LaidOut (g g' : Graph ℝ) (arcs : List (Arc g.nodes.length))
    (point : Stop g.nodes.length → Point ℝ) : Prop where
  represents : g.Represents arcs
  arranged : Arranged g g' arcs point
  packed : ∃ v, ∀ t ∈ allStops (plan arcs).ranks (plan arcs).arcs, ∃ c,
    (pack ⟨g.direction, g.nodeGap, g.rankGap⟩ (Vector.ofFn fun u => sizeOrZero (g.nodes.get u))
      (plan arcs).rows).lookup t = some c ∧ point t = c.shift v
  level : ∀ t u : Stop g.nodes.length, t.rank (plan arcs).ranks = u.rank (plan arcs).ranks →
    g.direction.along (point t) = g.direction.along (point u)
  layered : ∀ t ∈ allStops (plan arcs).ranks (plan arcs).arcs,
    ∀ u ∈ allStops (plan arcs).ranks (plan arcs).arcs,
    t.rank (plan arcs).ranks < u.rank (plan arcs).ranks →
    g.direction.along (point t) + (stopExtent g t).along / 2 + g.rankGap ≤
      g.direction.along (point u) - (stopExtent g u).along / 2
  apart : g.direction ∈ Direction.all → ∀ t ∈ allStops (plan arcs).ranks (plan arcs).arcs,
    ∀ u ∈ allStops (plan arcs).ranks (plan arcs).arcs, t ≠ u →
    t.rank (plan arcs).ranks = u.rank (plan arcs).ranks →
    Apart g.nodeGap (g.direction.acrossSpan (stopBox g (point t) t))
      (g.direction.acrossSpan (stopBox g (point u) u))
  route : ∀ a ∈ arcs, a.source ≠ a.target → ∃ e, g.edges[a.edge]? = some e ∧
    g'.edges[a.edge]? = some
      { e with
        points := routeThrough (placedAt g point a.source) (placedAt g point a.target)
          ((passed (plan arcs).ranks a).map fun r => point (.via a.edge r))
          (directMiddle g.nodeGap (shareOf (g.edges.take a.edge) g.edges e)
            (placedAt g point a.source) (placedAt g point a.target) (e.source ≤ e.target)) }

/-- `p` is the centre of the `u`-th node in the layout `g'`. -/
def HasCenter (g' : Graph ℝ) (u : ℕ) (p : Point ℝ) : Prop :=
  ∃ s, g'.nodes[u]? = some s ∧ s.center? = some p

theorem HasCenter.unique {g' : Graph ℝ} {u : ℕ} {p q : Point ℝ} (hp : HasCenter g' u p)
    (hq : HasCenter g' u q) : p = q := by
  obtain ⟨s, hs, hp⟩ := hp
  obtain ⟨s', hs', hq⟩ := hq
  obtain rfl := Option.some.inj (hs.symm.trans hs')
  exact Option.some.inj (hp.symm.trans hq)

/-- The box of a node is the one of its size around its centre. -/
theorem HasBox.eq_boxAt {g g' : Graph ℝ} {u : Fin g.nodes.length} {b : Box ℝ} {p : Point ℝ}
    (hb : HasBox g g' u b) (hp : HasCenter g' u p) :
    b = Node.boxAt (sizeOrZero (g.nodes.get u)).1 (sizeOrZero (g.nodes.get u)).2 p := by
  obtain ⟨s, hs, -, hsize, hb⟩ := hb
  obtain ⟨s', hs', hp⟩ := hp
  obtain rfl := Option.some.inj (hs.symm.trans hs')
  obtain ⟨w, h, c, hsize', hc, rfl⟩ := Node.box?_eq_some.mp hb
  rw [sizeOrZero, ← hsize, hsize', Option.some.inj (hp.symm.trans hc)]
  rfl

section LaidOut

variable {g g' : Graph ℝ} {arcs : List (Arc g.nodes.length)} {point : Stop g.nodes.length → Point ℝ}

theorem extentOf_placedAt (f : Stop g.nodes.length → Point ℝ) (u : Fin g.nodes.length) :
    extentOf g.direction ((placedAt g f u).width, (placedAt g f u).height) =
      stopExtent g (.node u) :=
  (stopExtent_node g u).symm

namespace LaidOut

variable (h : LaidOut g g' arcs point)
include h

theorem hasCenter (u : Fin g.nodes.length) : HasCenter g' u (point (.node u)) :=
  ⟨_, h.arranged.node u, rfl⟩

theorem hasBox (hm : Measured g) (u : Fin g.nodes.length) : HasBox g g' u
    (Node.boxAt (placedAt g point u).width (placedAt g point u).height
      (placedAt g point u).center) :=
  h.arranged.hasBox hm u

/-- Every stop stands where packing puts it, but for one and the same shift. -/
theorem exists_shift : ∃ v, ∀ t ∈ allStops (plan arcs).ranks (plan arcs).arcs, ∀ c,
    (pack ⟨g.direction, g.nodeGap, g.rankGap⟩ (Vector.ofFn fun u => sizeOrZero (g.nodes.get u))
      (plan arcs).rows).lookup t = some c → point t = c.shift v := by
  obtain ⟨v, hv⟩ := h.packed
  refine ⟨v, fun t ht c hc => ?_⟩
  obtain ⟨c', hc', hpoint⟩ := hv t ht
  rw [hpoint, Option.some.inj (hc.symm.trans hc')]

theorem rank_ne {a : Arc g.nodes.length} (ha : a ∈ arcs) (hne : a.source ≠ a.target) :
    (plan arcs).ranks.get a.source ≠ (plan arcs).ranks.get a.target :=
  rank_ne_of_plan h.represents.nodup_edge ha (by simpa [Arc.isLoop] using hne)

/-- What is no farther from a stop along the ranks than the stop reaches is on one side of every box
of another rank. -/
theorem beside (hk : 0 ≤ g.rankGap) (u : Fin g.nodes.length) {t : Stop g.nodes.length}
    (ht : t ∈ allStops (plan arcs).ranks (plan arcs).arcs) {p : Point ℝ}
    (hp : |g.direction.along p - g.direction.along (point t)| ≤ (stopExtent g t).along / 2) :
    (t.rank (plan arcs).ranks < (plan arcs).ranks.get u → (stopExtent g (.node u)).along / 2 ≤
        g.direction.along (point (.node u)) - g.direction.along p) ∧
      ((plan arcs).ranks.get u < t.rank (plan arcs).ranks → (stopExtent g (.node u)).along / 2 ≤
        g.direction.along p - g.direction.along (point (.node u))) := by
  obtain ⟨hlow, hhigh⟩ := abs_le.mp hp
  refine ⟨fun hlt => ?_, fun hlt => ?_⟩
  · have hgap := h.layered t ht (.node u) (mem_allStops_node u) hlt
    linarith
  · have hgap := h.layered (.node u) (mem_allStops_node u) t ht hlt
    linarith

theorem point_ne (hm : Measured g) (hk : 0 ≤ g.rankGap) (u : Fin g.nodes.length)
    {t : Stop g.nodes.length} (ht : t ∈ allStops (plan arcs).ranks (plan arcs).arcs)
    (hne : t.rank (plan arcs).ranks ≠ (plan arcs).ranks.get u) : point t ≠ point (.node u) := by
  intro heq
  have hthick := (extent_pos hm u).2
  obtain ⟨hbelow, habove⟩ := h.beside hk u ht (p := point t)
    (by simpa using div_nonneg (extent_nonneg hm t).2 zero_le_two)
  rw [heq, sub_self] at hbelow habove
  rcases Nat.lt_or_gt_of_ne hne with hlt | hgt
  · linarith [hbelow hlt]
  · linarith [habove hgt]

end LaidOut

end LaidOut

/-- **Every graph whose edges join its nodes is laid out.** -/
theorem layout_laidOut (g : Graph ℝ) (hj : g.Joined) (hm : Measured g) (hn : 0 ≤ g.nodeGap)
    (hk : 0 ≤ g.rankGap) :
    ∃ (arcs : List (Arc g.nodes.length)) (g' : Graph ℝ) (size : ℝ × ℝ)
      (point : Stop g.nodes.length → Point ℝ), g.arcs = .ok arcs ∧ layout g = .ok (g', size) ∧
      LaidOut g g' arcs point := by
  obtain ⟨arcs, g', size, x, v, ha, hr, hl, hg, hs⟩ := layout_moved g hj hm hn hk
  set y := bandMiddle ⟨g.direction, g.nodeGap, g.rankGap⟩ (stopExtent g) (plan arcs).rows
  have halong : ∀ t, g.direction.along (pointOf g.direction (plan arcs).ranks x y v t) =
      y (t.rank (plan arcs).ranks) + g.direction.along v :=
    fun t => along_shift_orient g.direction v _ _
  refine ⟨arcs, g', size, pointOf g.direction (plan arcs).ranks x y v, ha, hl, hr,
    arranged_of_movedBy hr hg hs, ⟨v, fun t ht => ⟨_, hs.lookup t ht, rfl⟩⟩,
    fun t u hrank => ?_, fun t ht u hu hlt => ?_,
    fun hd t ht u hu hne hrank => stops_apart hd v hs ht hu hne hrank, fun a haa hne => ?_⟩
  · rw [halong, halong, hrank]
  · have hgap := hs.layered t ht u hu hlt
    rw [halong, halong]
    simp only at hgap
    linarith
  · have hloop : a.isLoop = false := by simpa [Arc.isLoop] using hne
    obtain ⟨e, he, hroute⟩ := placeAlong_shared hr hs.lookup haa hloop
    refine ⟨e, he, ?_⟩
    rw [hg.edges, List.getElem?_map, hroute, Option.map_some]
    dsimp only
    rw [← routeThrough_shift, ← directMiddle_shift, List.map_map]
    rfl

end Scrawl.Layered
