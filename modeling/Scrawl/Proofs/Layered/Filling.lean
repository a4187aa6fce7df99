import Scrawl.Proofs.Layered.Room

/-!
# Scrawl.Proofs.Layered.Filling — a placement fills its room

The boxes of the nodes and the points of the routes stay inside the room that packing takes, and
reach its four ends: across the ranks by the first and the last member of the longest row, be they
nodes or edges that pass, along them by the thickest nodes of the first and the last rank.

* `inRoom_route`: no route leaves the room.
* `placement_fills`: the extents of a placement.
-/

namespace Scrawl.Layered

/-- The point is in the room of the placement. -/
def InRoom (g : Graph ℝ) (arcs : List (Arc g.nodes.length)) (p : Point ℝ) : Prop :=
  (0 ≤ g.direction.across p ∧ g.direction.across p ≤ breadth g arcs) ∧
    0 ≤ g.direction.along p ∧ g.direction.along p ≤ depth g arcs

section Placement

variable {g : Graph ℝ} {arcs : List (Arc g.nodes.length)} {f : Stop g.nodes.length → Point ℝ}

theorem InRoom.midpoint {p q : Point ℝ} (hp : InRoom g arcs p) (hq : InRoom g arcs q) :
    InRoom g arcs (Layered.midpoint p q) := by
  obtain ⟨⟨hleft, hright⟩, hfirst, hlast⟩ := hp
  obtain ⟨⟨hleft', hright'⟩, hfirst', hlast'⟩ := hq
  rw [InRoom, across_midpoint, along_midpoint]
  exact ⟨⟨by linarith, by linarith⟩, by linarith, by linarith⟩

/-- A route has points on the borders of its ends, and the points it is led over. -/
theorem mem_routeThrough {s t : Placed ℝ} (hs : 0 < s.width ∧ 0 < s.height)
    (ht : 0 < t.width ∧ 0 < t.height) {via : List (Point ℝ)} {direct : Point ℝ}
    (hvia : ∀ q ∈ via, q ≠ s.center ∧ q ≠ t.center)
    (hdirect : direct ≠ s.center ∧ direct ≠ t.center) {p : Point ℝ}
    (hp : p ∈ routeThrough s t via direct) :
    OnBorder (Node.boxAt s.width s.height s.center) p ∨
      OnBorder (Node.boxAt t.width t.height t.center) p ∨ p ∈ via ∨ p = direct := by
  obtain ⟨q, qs, hroute, hne, hmem⟩ : ∃ q qs, routeThrough s t via direct = routeOver s t q qs ∧
      (∀ a ∈ q :: qs, a ≠ s.center ∧ a ≠ t.center) ∧ ∀ a ∈ q :: qs, a ∈ via ∨ a = direct := by
    cases via with
    | nil => exact ⟨direct, [], rfl, by simpa using hdirect, by simp⟩
    | cons q qs => exact ⟨q, qs, rfl, hvia, fun a ha => Or.inl ha⟩
  obtain ⟨first, last, heq, hfirst, hlast⟩ := onBorder_routeOver hs ht hne
  rw [hroute, heq] at hp
  rcases List.mem_cons.mp hp with rfl | hp
  · exact Or.inl hfirst
  · rcases List.mem_append.mp hp with hp | hp
    · exact Or.inr (Or.inr (hmem p hp))
    · obtain rfl := List.mem_singleton.mp hp
      exact Or.inr (Or.inl hlast)

variable (hf : Packs g arcs f)
include hf

theorem exists_stopBox (hm : Measured g) (u : Fin g.nodes.length) :
    ∃ v ∈ (placeAlong g arcs).nodes,
      v.box? = some (stopBox g (f (.node u)) (.node u)) := by
  obtain ⟨w, h, hsize, -⟩ := hm _ (List.get_mem g.nodes u)
  refine ⟨_, List.mem_of_getElem? (placeAlong_node hf u),
    Node.box?_eq_some.mpr ⟨w, h, f (.node u), hsize, rfl, ?_⟩⟩
  rw [stopBox, stopSize, sizeOrZero, hsize]
  rfl

theorem eq_stopBox {v : Node ℝ} (hv : v ∈ (placeAlong g arcs).nodes) {b : Box ℝ}
    (hb : v.box? = some b) : ∃ u, b = stopBox g (f (.node u)) (.node u) := by
  obtain ⟨i, hi, rfl⟩ := List.getElem_of_mem hv
  have hlen := nodes_placeAlong_length g arcs
  have hnode := placeAlong_node hf ⟨i, hlen ▸ hi⟩
  rw [List.getElem?_eq_getElem hi, Option.some.injEq] at hnode
  rw [hnode] at hb
  obtain ⟨w, h, c, hsize, hc, rfl⟩ := Node.box?_eq_some.mp hb
  have hsize : (g.nodes.get ⟨i, hlen ▸ hi⟩).size? = some (w, h) := hsize
  refine ⟨⟨i, hlen ▸ hi⟩, ?_⟩
  rw [stopBox, stopSize, sizeOrZero, hsize, ← Option.some.inj hc]
  rfl

/-- What holds of the boxes and of the routes holds of all that the placement shows. -/
theorem marks_subset {sides : Box ℝ → List ℝ} {coordinate : Point ℝ → ℝ} {s : Set ℝ}
    (hbox : ∀ u, ∀ a ∈ sides (stopBox g (f (.node u)) (.node u)), a ∈ s)
    (hpoint : ∀ e ∈ (placeAlong g arcs).edges, ∀ p ∈ e.points, coordinate p ∈ s) :
    (placeAlong g arcs).marks sides coordinate ⊆ s := by
  rintro a (⟨v, hv, b, hb, ha⟩ | ⟨e, he, p, hp, rfl⟩)
  · obtain ⟨u, rfl⟩ := eq_stopBox hf hv hb
    exact hbox u a ha
  · exact hpoint e he p hp

theorem mem_marksAlong (hm : Measured g) (hd : g.direction ∈ Direction.all)
    (u : Fin g.nodes.length) :
    g.direction.along (f (.node u)) - (stopExtent g (.node u)).along / 2 ∈
        g.direction.marksAlong (placeAlong g arcs) ∧
      g.direction.along (f (.node u)) + (stopExtent g (.node u)).along / 2 ∈
        g.direction.marksAlong (placeAlong g arcs) := by
  obtain ⟨v, hv, hb⟩ := exists_stopBox hf hm u
  constructor <;> exact Or.inl ⟨v, hv, _, hb, by simp [reach_stopBox hd]⟩

variable (hr : g.Represents arcs)
include hr

/-- The route of an edge of a simple graph without loops. -/
theorem exists_route (hloops : ∀ e ∈ g.edges, e.source ≠ e.target) (hsimple : g.Simple)
    {e : Edge ℝ} (he : e ∈ (placeAlong g arcs).edges) : ∃ a ∈ arcs, a.source ≠ a.target ∧
      e.points = routeThrough (placedAt g f a.source)
        (placedAt g f a.target)
        ((passed (plan arcs).ranks a).map fun r => f (.via a.edge r))
        (midpoint (f (.node a.source)) (f (.node a.target))) := by
  obtain ⟨i, hi, rfl⟩ := List.getElem_of_mem he
  have hi' : i < g.edges.length := edges_placeAlong_length g arcs ▸ hi
  obtain ⟨a, ha, rfl, hs, ht⟩ := hr.exists_arc (List.getElem?_eq_getElem hi')
  have hends := hloops _ (List.getElem_mem hi')
  have hne := Graph.number_ne hs ht hends
  obtain ⟨e, he, hroute⟩ := placeAlong_shared hr hf ha
    (by simpa [Arc.isLoop] using hne)
  obtain rfl := Option.some.inj ((List.getElem?_eq_getElem hi').symm.trans he)
  rw [List.getElem?_eq_getElem hi, Option.some.injEq] at hroute
  refine ⟨a, ha, hne, ?_⟩
  rw [hroute, midpoint_of_single _ (count_of_simple hsimple hends)]
  rfl

/-- Where an edge passes a rank, its route has a point. -/
theorem exists_via_point {i r : ℕ}
    (ht : Stop.via i r ∈ allStops (plan arcs).ranks (plan arcs).arcs) :
    ∃ e ∈ (placeAlong g arcs).edges, f (.via i r) ∈ e.points := by
  obtain ⟨u, -, hu⟩ | ⟨b, hb, hvia⟩ : (∃ u ∈ List.finRange g.nodes.length, Stop.node u = .via i r) ∨
      ∃ b ∈ (plan arcs).arcs, Stop.via i r ∈ viasOf (plan arcs).ranks b := by
    simpa only [allStops, List.mem_append, List.mem_map, List.mem_flatMap] using ht
  · cases hu
  obtain ⟨r', hlow, hhigh, heq⟩ := mem_viasOf.mp hvia
  obtain ⟨rfl, rfl⟩ := Stop.via.inj heq
  have harcs : (plan arcs).arcs = _ := turnArcs_eq (plan arcs).back arcs
  rw [harcs] at hb
  obtain ⟨a, ha, rfl⟩ := List.mem_map.mp hb
  have haa := (List.mem_filter.mp ha).1
  have hedge : (if a.edge ∈ (plan arcs).back then a.turned else a).edge = a.edge := by
    split_ifs <;> rfl
  have hpassed : r ∈ passed (plan arcs).ranks a := by
    rw [mem_passed]
    split_ifs at hlow hhigh
    · exact Or.inr ⟨hlow, hhigh⟩
    · exact Or.inl ⟨hlow, hhigh⟩
  obtain ⟨e, first, last, -, he⟩ := placeAlong_edge hr hf haa
    (List.ne_nil_of_mem hpassed)
  refine ⟨_, List.mem_of_getElem? he, List.mem_cons_of_mem _ (List.mem_append_left _ ?_)⟩
  rw [hedge]
  exact List.mem_map.mpr ⟨r, hpassed, rfl⟩

theorem mem_marksAcross (hm : Measured g) {t : Stop g.nodes.length}
    (ht : t ∈ allStops (plan arcs).ranks (plan arcs).arcs) :
    g.direction.across (f t) - (stopExtent g t).across / 2 ∈
        g.direction.marksAcross (placeAlong g arcs) ∧
      g.direction.across (f t) + (stopExtent g t).across / 2 ∈
        g.direction.marksAcross (placeAlong g arcs) := by
  cases t with
  | node u =>
    obtain ⟨v, hv, hb⟩ := exists_stopBox hf hm u
    constructor <;> exact Or.inl ⟨v, hv, _, hb, by simp [acrossSpan_stopBox]⟩
  | via i r =>
    obtain ⟨e, he, hp⟩ := exists_via_point hf hr ht
    rw [stopExtent_via, zero_div, sub_zero, add_zero]
    exact ⟨Or.inr ⟨e, he, _, hp, rfl⟩, Or.inr ⟨e, he, _, hp, rfl⟩⟩

section Spread

variable (hm : Measured g) (hn : 0 ≤ g.nodeGap) (hk : 0 ≤ g.rankGap)
include hm hn hk

theorem Packs.ne {t : Stop g.nodes.length} {u : Fin g.nodes.length}
    (ht : t ∈ allStops (plan arcs).ranks (plan arcs).arcs)
    (hne : t.rank (plan arcs).ranks ≠ (plan arcs).ranks.get u) :
    f t ≠ f (.node u) := by
  obtain ⟨x, hs⟩ := exists_seating (rowsOf_plan hr) (spacingOf g)
    (Vector.ofFn fun u => sizeOrZero (g.nodes.get u)) hn hk (fun t => (extent_nonneg hm t).1)
    (fun t => (extent_nonneg hm t).2)
  have hseat : ∀ t ∈ allStops (plan arcs).ranks (plan arcs).arcs,
      f t = seatOf g (plan arcs).ranks x _ t := fun t ht =>
    Option.some.inj ((hf t ht).symm.trans (hs.lookup t ht))
  rw [hseat t ht, hseat _ (mem_allStops_node u)]
  exact seatOf_ne hm hk hs ht hne

variable (hd : g.direction ∈ Direction.all)
include hd

/-- Points on the borders of the nodes are in the room. -/
theorem inRoom_of_onBorder (u : Fin g.nodes.length) {p : Point ℝ}
    (hp : OnBorder (stopBox g (f (.node u)) (.node u)) p) : InRoom g arcs p := by
  have hseat := seat_bounds hr hf hm hd hn hk (mem_allStops_node u)
  have hbox := bounds_of_onBorder hd hp
  rw [acrossSpan_stopBox, reach_stopBox hd] at hbox
  exact ⟨⟨by linarith, by linarith⟩, by linarith, by linarith⟩

/-- The points of the stops are in the room. -/
theorem inRoom_of_stop {t : Stop g.nodes.length}
    (ht : t ∈ allStops (plan arcs).ranks (plan arcs).arcs) : InRoom g arcs (f t) := by
  have hseat := seat_bounds hr hf hm hd hn hk ht
  have hext := extent_nonneg hm t
  exact ⟨⟨by linarith, by linarith⟩, by linarith, by linarith⟩

/-- **No route leaves the room** of the placement. -/
theorem inRoom_route (hloops : ∀ e ∈ g.edges, e.source ≠ e.target) (hsimple : g.Simple)
    {e : Edge ℝ} (he : e ∈ (placeAlong g arcs).edges) {p : Point ℝ} (hp : p ∈ e.points) :
    InRoom g arcs p := by
  obtain ⟨a, ha, hne, hroute⟩ := exists_route hf hr hloops hsimple he
  rw [hroute] at hp
  have hrank := rank_ne_of_plan hr.nodup_edge ha (by simpa [Arc.isLoop] using hne)
  have hvia : ∀ q ∈ (passed (plan arcs).ranks a).map fun r => f (.via a.edge r),
      q ≠ f (.node a.source) ∧ q ≠ f (.node a.target) := by
    intro q hq
    obtain ⟨r, hpassed, rfl⟩ := List.mem_map.mp hq
    have hstop := via_mem_allStops hr.nodup_edge ha hpassed
    have hbetween := mem_passed.mp hpassed
    exact ⟨hf.ne hr hm hn hk hstop (show r ≠ _ by omega),
      hf.ne hr hm hn hk hstop (show r ≠ _ by omega)⟩
  have hdirect := directMiddle_ne g.nodeGap ⟨0, 1⟩ true
    (s := placedAt g f a.source) (t := placedAt g f a.target)
    (hf.ne hr hm hn hk (mem_allStops_node a.source) hrank)
  rw [midpoint_of_single _ le_rfl] at hdirect
  have hnode := fun u => inRoom_of_stop hf hr hm hn hk hd (mem_allStops_node u)
  rcases mem_routeThrough (placedAt_pos hm _ a.source) (placedAt_pos hm _ a.target) hvia hdirect hp
    with hp | hp | hp | rfl
  · exact inRoom_of_onBorder hf hr hm hn hk hd a.source hp
  · exact inRoom_of_onBorder hf hr hm hn hk hd a.target hp
  · obtain ⟨r, hpassed, rfl⟩ := List.mem_map.mp hp
    exact inRoom_of_stop hf hr hm hn hk hd (via_mem_allStops hr.nodup_edge ha hpassed)
  · exact (hnode a.source).midpoint (hnode a.target)

/-- **The placement fills its room**, from zero on across and along the ranks. -/
theorem placement_fills (hloops : ∀ e ∈ g.edges, e.source ≠ e.target) (hsimple : g.Simple)
    (hne : g.nodes ≠ []) :
    (IsLeast (g.direction.marksAcross (placeAlong g arcs)) 0 ∧
      IsGreatest (g.direction.marksAcross (placeAlong g arcs)) (breadth g arcs)) ∧
    IsLeast (g.direction.marksAlong (placeAlong g arcs)) 0 ∧
      IsGreatest (g.direction.marksAlong (placeAlong g arcs)) (depth g arcs) := by
  have hroute := fun e (he : e ∈ (placeAlong g arcs).edges) p (hp : p ∈ e.points) =>
    inRoom_route hf hr hm hn hk hd hloops hsimple he hp
  have hbox : ∀ u, (∀ a ∈ [(g.direction.acrossSpan (stopBox g (f (.node u)) (.node u))).1,
        (g.direction.acrossSpan (stopBox g (f (.node u)) (.node u))).2],
          0 ≤ a ∧ a ≤ breadth g arcs) ∧
      ∀ a ∈ [(g.direction.reach (stopBox g (f (.node u)) (.node u))).1,
        (g.direction.reach (stopBox g (f (.node u)) (.node u))).2], 0 ≤ a ∧ a ≤ depth g arcs := by
    intro u
    have hseat := seat_bounds hr hf hm hd hn hk (mem_allStops_node u)
    have hext := extent_nonneg hm (.node u)
    rw [acrossSpan_stopBox, reach_stopBox hd]
    simp only [List.mem_pair, forall_eq_or_imp, forall_eq]
    exact ⟨⟨⟨by linarith, by linarith⟩, by linarith, by linarith⟩,
      ⟨by linarith, by linarith⟩, by linarith, by linarith⟩
  have hacross : g.direction.marksAcross (placeAlong g arcs) ⊆ Set.Icc 0 (breadth g arcs) :=
    marks_subset hf (fun u => (hbox u).1) fun e he p hp => (hroute e he p hp).1
  have halong : g.direction.marksAlong (placeAlong g arcs) ⊆ Set.Icc 0 (depth g arcs) :=
    marks_subset hf (fun u => (hbox u).2) fun e he p hp => (hroute e he p hp).2
  obtain ⟨⟨t, ht, hleft⟩, w, hw, hright⟩ := exists_seat_across hr hf hd hne
  obtain ⟨⟨u, hfirst⟩, z, hlast⟩ := exists_seat_along hr hf hm hne
  refine ⟨⟨⟨hleft ▸ (mem_marksAcross hf hr hm ht).1, fun a ha => (hacross ha).1⟩,
    hright ▸ (mem_marksAcross hf hr hm hw).2, fun a ha => (hacross ha).2⟩,
    ⟨hfirst ▸ (mem_marksAlong hf hm hd u).1, fun a ha => (halong ha).1⟩,
    hlast ▸ (mem_marksAlong hf hm hd z).2, fun a ha => (halong ha).2⟩

end Spread

end Placement

end Scrawl.Layered
