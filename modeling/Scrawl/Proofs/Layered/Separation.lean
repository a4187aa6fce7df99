import Scrawl.Proofs.Layered.Placement

/-!
# Scrawl.Proofs.Layered.Separation — nothing in a layout overlaps

In a layout of a measured graph the boxes of one rank are a node gap apart, boxes of different ranks
a rank gap, and the points at which an edge passes a rank keep the node gap to every box and to
every other such point of that rank.
-/

namespace Scrawl.Layered

variable {n : ℕ}

/-- The size of a stop: an edge that passes takes no room. -/
noncomputable def stopSize (g : Graph ℝ) : Stop g.nodes.length → ℝ × ℝ
  | .node u => sizeOrZero (g.nodes.get u)
  | .via _ _ => (0, 0)

/-- The box of a stop at a point. -/
noncomputable def stopBox (g : Graph ℝ) (p : Point ℝ) (t : Stop g.nodes.length) : Box ℝ :=
  Node.boxAt (stopSize g t).1 (stopSize g t).2 p

/-- `b` is the box of the `u`-th node in the layout `g'` of `g`; id and size of the node are those
that it has in `g`. -/
def HasBox (g g' : Graph ℝ) (u : Fin g.nodes.length) (b : Box ℝ) : Prop :=
  ∃ s, g'.nodes[(u : ℕ)]? = some s ∧ s.id = (g.nodes.get u).id ∧
    s.size? = (g.nodes.get u).size? ∧ s.box? = some b

/-- `p` is the point at which the edge of the arc passes the `r`-th rank: the route has a point for
each rank passed, between its first and its last. -/
def PassesAt (g' : Graph ℝ) (ranks : Vector ℕ n) (a : Arc n) (r : ℕ) (p : Point ℝ) : Prop :=
  ∃ (e : Edge ℝ) (k : ℕ), g'.edges[a.edge]? = some e ∧
    e.points.length = (passed ranks a).length + 2 ∧ (passed ranks a)[k]? = some r ∧
    e.points[k + 1]? = some p

theorem mem_passed {ranks : Vector ℕ n} {a : Arc n} {r : ℕ} :
    r ∈ passed ranks a ↔
      ranks.get a.source < r ∧ r < ranks.get a.target ∨
        ranks.get a.target < r ∧ r < ranks.get a.source := by
  simp only [passed]
  split_ifs <;> simp only [List.mem_reverse, List.mem_range'_1] <;> omega

theorem via_mem_allStops {arcs : List (Arc n)} (hd : (arcs.map (·.edge)).Nodup) {a : Arc n}
    (ha : a ∈ arcs) {r : ℕ} (hr : r ∈ passed (plan arcs).ranks a) :
    Stop.via a.edge r ∈ allStops (plan arcs).ranks (plan arcs).arcs := by
  have hr := mem_passed.mp hr
  have hl : a.isLoop = false := isLoop_of_rank_ne fun h : (plan arcs).ranks.get a.source = _ => by
    omega
  have hm := mem_plan_arcs ha hl
  have hlt := rank_lt_of_plan hd hm
  refine List.mem_append_right _ (List.mem_flatMap.mpr ⟨_, hm, mem_viasOf.mpr ⟨r, ?_⟩⟩)
  split_ifs at hlt ⊢
  · have hlt : (plan arcs).ranks.get a.target < (plan arcs).ranks.get a.source := hlt
    exact ⟨show (plan arcs).ranks.get a.target < r by omega,
      show r < (plan arcs).ranks.get a.source by omega, rfl⟩
  · exact ⟨by omega, by omega, rfl⟩

/-! ### What an arranged graph shows -/

section Arranged

variable {g g' : Graph ℝ} {arcs : List (Arc g.nodes.length)}
  {point : Stop g.nodes.length → Point ℝ} (h : Arranged g g' arcs point)
include h

theorem Arranged.hasBox (hm : Measured g) (u : Fin g.nodes.length) :
    HasBox g g' u (stopBox g (point (.node u)) (.node u)) := by
  obtain ⟨w, k, hs, -⟩ := hm _ (List.get_mem g.nodes u)
  refine ⟨_, h.node u, rfl, rfl, ?_⟩
  have hs' : Node.size? { g.nodes.get u with x := some (point (.node u)).x,
                                             y := some (point (.node u)).y } = some (w, k) := hs
  unfold Node.box?
  rw [hs', stopBox, stopSize, sizeOrZero, hs]
  rfl

theorem Arranged.exists_passesAt {a : Arc g.nodes.length} (ha : a ∈ arcs) {r : ℕ}
    (hr : r ∈ passed (plan arcs).ranks a) : ∃ p, PassesAt g' (plan arcs).ranks a r p := by
  obtain ⟨e, first, last, -, he⟩ := h.edge a ha (List.ne_nil_of_mem hr)
  obtain ⟨k, hk, hkr⟩ := List.getElem_of_mem hr
  refine ⟨point (.via a.edge r), _, k, he, by simp, by simp [hk, hkr], ?_⟩
  simp [List.getElem?_append, hk, hkr]

theorem Arranged.eq_of_passesAt {a : Arc g.nodes.length} (ha : a ∈ arcs) {r : ℕ} {p : Point ℝ}
    (hp : PassesAt g' (plan arcs).ranks a r p) :
    r ∈ passed (plan arcs).ranks a ∧ p = point (.via a.edge r) := by
  obtain ⟨e, k, he, -, hk, hkp⟩ := hp
  have hr := List.mem_of_getElem? hk
  obtain ⟨e', first, last, -, he'⟩ := h.edge a ha (List.ne_nil_of_mem hr)
  obtain rfl := Option.some.inj (he.symm.trans he')
  obtain ⟨hlt, hget⟩ := List.getElem?_eq_some_iff.mp hk
  refine ⟨hr, ?_⟩
  simpa [List.getElem?_append, hlt, hget] using hkp.symm

end Arranged

/-! ### Distances on the screen -/

section Seated

variable {g : Graph ℝ} {arcs : List (Arc g.nodes.length)}
  {centers : List (Stop g.nodes.length × Point ℝ)} {x : Stop g.nodes.length → ℝ} {y : ℕ → ℝ}
  (hd : g.direction ∈ Direction.all) (v : Point ℝ)
  (hs : Seating (plan arcs).ranks (plan arcs).arcs ⟨g.direction, g.nodeGap, g.rankGap⟩
    (stopExtent g) centers x y)

theorem extentOf_stopSize (t : Stop g.nodes.length) :
    extentOf g.direction (stopSize g t) = stopExtent g t := by
  cases t with
  | node u => rw [stopExtent_node, stopSize]
  | via i r =>
    rw [stopExtent_via, stopSize, extentOf]
    split_ifs <;> rfl

theorem acrossSpan_stopBox (p : Point ℝ) (t : Stop g.nodes.length) :
    g.direction.acrossSpan (stopBox g p t) = (g.direction.across p - (stopExtent g t).across / 2,
      g.direction.across p + (stopExtent g t).across / 2) := by
  rw [stopBox, acrossSpan_boxAt, extentOf_stopSize]

theorem acrossSpan_via (p : Point ℝ) (i r : ℕ) :
    g.direction.acrossSpan (stopBox g p (.via i r)) =
      (g.direction.across p, g.direction.across p) := by
  rw [acrossSpan_stopBox, stopExtent_via]
  simp

include hd hs

theorem stops_apart {t u : Stop g.nodes.length}
    (ht : t ∈ allStops (plan arcs).ranks (plan arcs).arcs)
    (hu : u ∈ allStops (plan arcs).ranks (plan arcs).arcs) (hne : t ≠ u)
    (hrank : t.rank (plan arcs).ranks = u.rank (plan arcs).ranks) :
    Apart g.nodeGap
      (g.direction.acrossSpan (stopBox g (pointOf g.direction (plan arcs).ranks x y v t) t))
      (g.direction.acrossSpan (stopBox g (pointOf g.direction (plan arcs).ranks x y v u) u)) := by
  rw [acrossSpan_stopBox, acrossSpan_stopBox]
  simp only [Apart, pointOf, across_shift_orient hd]
  rcases hs.apart t ht u hu hne hrank with h | h
  · left
    linarith
  · right
    linarith

theorem ranks_apart {t u : Stop g.nodes.length}
    (ht : t ∈ allStops (plan arcs).ranks (plan arcs).arcs)
    (hu : u ∈ allStops (plan arcs).ranks (plan arcs).arcs)
    (hrank : t.rank (plan arcs).ranks < u.rank (plan arcs).ranks) :
    Apart g.rankGap
      (g.direction.alongSpan (stopBox g (pointOf g.direction (plan arcs).ranks x y v t) t))
      (g.direction.alongSpan (stopBox g (pointOf g.direction (plan arcs).ranks x y v u) u)) := by
  have h := hs.layered t ht u hu hrank
  refine apart_alongSpan hd ?_
  simp only [Prod.mk.eta, extentOf_stopSize, pointOf, along_shift_orient]
  linarith

end Seated

/-- **Nothing in a layout overlaps.**  For a graph whose edges join its nodes, with positive sizes,
gaps that are not negative and one of the four directions: boxes of one rank are a node gap apart
within it, boxes of different ranks a rank gap along the ranks; every rank passed by an edge has a
point of its route, which keeps the node gap to the boxes and to the other such points of the rank;
so no two boxes overlap. -/
theorem layout_separates (g : Graph ℝ) (hj : g.Joined) (hm : Measured g)
    (hd : g.direction ∈ Direction.all) (hn : 0 ≤ g.nodeGap) (hk : 0 ≤ g.rankGap) :
    ∃ (arcs : List (Arc g.nodes.length)) (g' : Graph ℝ) (size : ℝ × ℝ)
      (box : Fin g.nodes.length → Box ℝ), g.arcs = .ok arcs ∧ g.Represents arcs ∧
      layout g = .ok (g', size) ∧ (∀ u, HasBox g g' u (box u)) ∧
      (∀ u w, u ≠ w → (plan arcs).ranks.get u = (plan arcs).ranks.get w →
        Apart g.nodeGap (g.direction.acrossSpan (box u)) (g.direction.acrossSpan (box w))) ∧
      (∀ u w, (plan arcs).ranks.get u ≠ (plan arcs).ranks.get w →
        Apart g.rankGap (g.direction.alongSpan (box u)) (g.direction.alongSpan (box w))) ∧
      (∀ a ∈ arcs, ∀ r ∈ passed (plan arcs).ranks a, ∃ p, PassesAt g' (plan arcs).ranks a r p) ∧
      (∀ a ∈ arcs, ∀ r p, PassesAt g' (plan arcs).ranks a r p →
        (∀ u, (plan arcs).ranks.get u = r → Apart g.nodeGap
          (g.direction.across p, g.direction.across p) (g.direction.acrossSpan (box u))) ∧
        ∀ b ∈ arcs, ∀ q, PassesAt g' (plan arcs).ranks b r q → a ≠ b → Apart g.nodeGap
          (g.direction.across p, g.direction.across p)
          (g.direction.across q, g.direction.across q)) ∧
      ∀ u w, u ≠ w → ¬ Overlap (box u) (box w) := by
  obtain ⟨arcs, g', size, centers, x, y, v, ha, hr, hl, hs, hp⟩ := layout_seated g hj hm hn hk
  set point := pointOf g.direction (plan arcs).ranks x y v
  have hsame : ∀ u w : Fin g.nodes.length, u ≠ w →
      (plan arcs).ranks.get u = (plan arcs).ranks.get w → Apart g.nodeGap _ _ :=
    fun u w hne hrank => stops_apart hd v hs (mem_allStops_node u) (mem_allStops_node w)
      (fun h => hne (Stop.node.inj h)) hrank
  have hother : ∀ u w : Fin g.nodes.length,
      (plan arcs).ranks.get u ≠ (plan arcs).ranks.get w → Apart g.rankGap _ _ := fun u w hne => by
    rcases Nat.lt_or_gt_of_ne hne with h | h
    · exact ranks_apart hd v hs (mem_allStops_node u) (mem_allStops_node w) h
    · exact (ranks_apart hd v hs (mem_allStops_node w) (mem_allStops_node u) h).symm
  refine ⟨arcs, g', size, fun u => stopBox g (point (.node u)) (.node u), ha, hr, hl, hp.hasBox hm,
    hsame, hother, fun a haa r hra => hp.exists_passesAt haa hra, fun a haa r p hpa => ?_,
    fun u w hne => ?_⟩
  -- a point passed is the seat of its stop, which takes no room across
  · obtain ⟨hra, rfl⟩ := hp.eq_of_passesAt haa hpa
    have hta := via_mem_allStops hr.nodup_edge haa hra
    constructor
    · intro u hrank
      have h := stops_apart hd v hs hta (mem_allStops_node u) (fun h => by cases h)
        hrank.symm
      rwa [acrossSpan_via] at h
    · intro b hbb q hqb hne
      obtain ⟨hrb, rfl⟩ := hp.eq_of_passesAt hbb hqb
      have hne' : (Stop.via a.edge r : Stop g.nodes.length) ≠ .via b.edge r := fun h =>
        hne (List.inj_on_of_nodup_map hr.nodup_edge haa hbb (Stop.via.inj h).1)
      have h := stops_apart hd v hs hta (via_mem_allStops hr.nodup_edge hbb hrb) hne' rfl
      rwa [acrossSpan_via, acrossSpan_via] at h
  · by_cases hrank : (plan arcs).ranks.get u = (plan arcs).ranks.get w
    · exact not_overlap_of_apart g.direction hn (Or.inl (hsame u w hne hrank))
    · exact not_overlap_of_apart g.direction hk (Or.inr (hother u w hrank))

/-- A cycle of three nodes, laid out from left to right; the edge that closes it passes a rank. -/
noncomputable def triangle : Graph ℝ :=
  trio .leftRight [⟨"a", "b", []⟩, ⟨"b", "c", []⟩, ⟨"c", "a", []⟩]

theorem layout_separates_triangle : triangle.Joined ∧ Measured triangle ∧
    triangle.direction ∈ Direction.all ∧ 0 ≤ triangle.nodeGap ∧ 0 ≤ triangle.rankGap ∧
    ∃ g' size, layout triangle = .ok (g', size) ∧
      ∃ box : Fin triangle.nodes.length → Box ℝ,
        (∀ u, HasBox triangle g' u (box u)) ∧ ∀ u w, u ≠ w → ¬ Overlap (box u) (box w) := by
  have hj : triangle.Joined := by simp [Graph.Joined, Graph.ids, triangle, trio]
  have hm : Measured triangle := measured_trio _ _
  have hd : triangle.direction ∈ Direction.all := by simp [triangle, trio, Direction.all]
  have hn : 0 ≤ triangle.nodeGap := by norm_num [triangle, trio]
  have hk : 0 ≤ triangle.rankGap := by norm_num [triangle, trio]
  obtain ⟨-, g', size, box, -, -, hl, hb, -, -, -, -, hno⟩ :=
    layout_separates triangle hj hm hd hn hk
  exact ⟨hj, hm, hd, hn, hk, g', size, hl, box, hb, hno⟩

end Scrawl.Layered
