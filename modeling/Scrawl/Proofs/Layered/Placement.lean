import Mathlib.Data.List.GetD
import Scrawl.Proofs.Layered.Axes
import Scrawl.Proofs.Layered.CycleBreaking
import Scrawl.Proofs.Layered.Ranks
import Scrawl.Proofs.Layered.Seating

/-!
# Scrawl.Proofs.Layered.Placement — what a layout makes of a graph

* `frame_eq`: framing moves everything by one vector.
* `placeAlong_route`: the route of an edge, over the stops of the ranks that it passes or over one
  point of its own.
* `layout_seated`: node centres and the middle points of edges that pass ranks are those of the
  seating of their stops, moved by one vector; a middle point stands for each rank passed, in the
  order in which the edge meets them.
-/

namespace Scrawl.Layered

variable {n : ℕ}

/-! ### Framing -/

theorem exists_moved (shift : Option ℝ) : ∃ d : ℝ, ∀ a, moved shift a = a + d := by
  cases shift with
  | none => exact ⟨0, fun a => (add_zero a).symm⟩
  | some d => exact ⟨d, fun a => rfl⟩

/-- Framing moves everything by one vector. -/
theorem frame_eq (g : Graph ℝ) :
    ∃ (v : Point ℝ) (w h : ℝ), frame g =
      ({ g with
          nodes := g.nodes.map fun u => { u with x := u.x.map (· + v.x), y := u.y.map (· + v.y) }
          edges := g.edges.map fun e => { e with points := e.points.map (·.shift v) }
          width := some w
          height := some h }, (w, h)) := by
  obtain ⟨dx, hx⟩ := exists_moved (fit g.marginX (coveredX g)).1
  obtain ⟨dy, hy⟩ := exists_moved (fit g.marginY (coveredY g)).1
  refine ⟨⟨dx, dy⟩, (fit g.marginX (coveredX g)).2, (fit g.marginY (coveredY g)).2, ?_⟩
  simp only [frame, Point.shift, funext hx, funext hy]

section Scalars

variable {α : Type} [Scalar α]

theorem layout_of_arcs {g : Graph α} {arcs : List (Arc g.nodes.length)} (h : g.arcs = .ok arcs) :
    layout g = .ok (frame (placeAlong g arcs)) := by
  rw [layout, h]
  rfl

/-! ### Nodes by their ids -/

omit [Scalar α] in
theorem node?_of_number? {g g' : Graph α} (hid : g'.ids = g.ids) {id : String}
    {v : Fin g.nodes.length} (h : g.number? id = some v) : g'.node? id = g'.nodes[(v : ℕ)]? := by
  have hlen : g'.nodes.length = g.nodes.length := by
    simpa [Graph.ids] using congrArg List.length hid
  have hget : ∀ (i : ℕ) (hi : i < g'.nodes.length) (hi' : i < g.nodes.length),
      g'.nodes[i].id = g.nodes[i].id := fun i hi hi' => by
    have := List.getElem_of_eq hid (i := i) (by simpa [Graph.ids] using hi)
    simpa [Graph.ids] using this
  obtain ⟨hv, hfirst⟩ := List.findFinIdx?_eq_some_iff.mp h
  have hv' : (v : ℕ) < g'.nodes.length := hlen.symm ▸ v.isLt
  rw [List.getElem?_eq_getElem hv']
  refine List.find?_eq_some_iff_getElem.mpr ⟨?_, v, hv', rfl, fun j hj => ?_⟩
  · rw [hget _ hv' v.isLt]
    exact hv
  · rw [hget j (hj.trans hv') (hj.trans v.isLt)]
    simpa using hfirst ⟨j, hj.trans v.isLt⟩ hj

/-! ### Routes -/

theorem getElem?_routeEdges (g : Graph α) (via : ℕ → List (Point α)) :
    ∀ (edges earlier : List (Edge α)) (i : ℕ), (routeEdges g via earlier edges)[i]? =
      edges[i]?.map fun e =>
        { e with points := routeEdge g via (earlier ++ edges.take i) (earlier.length + i) e }
  | [], _, i => by simp [routeEdges]
  | e :: edges, earlier, 0 => by simp [routeEdges]
  | e :: edges, earlier, i + 1 => by
    have ih := getElem?_routeEdges g via edges (earlier ++ [e]) i
    simp only [routeEdges, List.getElem?_cons_succ, ih, List.take_succ_cons, List.length_append,
      List.length_singleton, List.append_assoc, List.singleton_append, Nat.add_right_comm,
      Nat.add_assoc]

/-- The route between two boxes over given points, or over another point where none is given. -/
def routeThrough (s t : Placed α) (via : List (Point α)) (direct : Point α) : List (Point α) :=
  match via with
  | first :: rest => routeOver s t first rest
  | [] => routeOver s t direct []

/-- A route over given points begins and ends with one more. -/
theorem routeThrough_of_ne_nil (s t : Placed α) {via : List (Point α)} (h : via ≠ [])
    (direct : Point α) : ∃ first last, routeThrough s t via direct = first :: (via ++ [last]) := by
  obtain ⟨p, ps, rfl⟩ := List.exists_cons_of_ne_nil h
  exact ⟨_, _, rfl⟩

/-- An edge between two nodes goes over the points given for it, or over one point of its own. -/
theorem routeEdge_through {g : Graph α} (via : ℕ → List (Point α)) (earlier : List (Edge α)) (i : ℕ)
    {e : Edge α} {s t : Node α} {c d : Point α} (hs : g.node? e.source = some s)
    (ht : g.node? e.target = some t) (hc : s.center? = some c) (hd : t.center? = some d)
    (hne : e.source ≠ e.target) :
    routeEdge g via earlier i e = routeThrough (placedOf s c) (placedOf t d) (via i)
      (directMiddle g.nodeGap (shareOf earlier g.edges e) (placedOf s c) (placedOf t d)
        (e.source ≤ e.target)) := by
  cases hvia : via i <;>
    simp only [routeEdge, hs, ht, hc, hd, beq_iff_eq, hne, if_false, routeThrough, hvia]

end Scalars

/-- The ranks strictly between those of an arc's ends, in the order in which the arc meets them. -/
def passed (ranks : Vector ℕ n) (a : Arc n) : List ℕ :=
  let r := ranks.get a.source
  let s := ranks.get a.target
  if r ≤ s then List.range' (r + 1) (s - (r + 1)) else (List.range' (s + 1) (r - (s + 1))).reverse

section Plan

variable {arcs : List (Arc n)}

theorem mem_plan_arcs {a : Arc n} (ha : a ∈ arcs) (hl : a.isLoop = false) :
    (if a.edge ∈ (plan arcs).back then a.turned else a) ∈ (plan arcs).arcs := by
  have h : (plan arcs).arcs = _ := turnArcs_eq (plan arcs).back arcs
  rw [h]
  exact List.mem_map.mpr ⟨a, List.mem_filter.mpr ⟨ha, by simp [hl]⟩, rfl⟩

theorem nodup_plan_edge (hd : (arcs.map (·.edge)).Nodup) :
    ((plan arcs).arcs.map (·.edge)).Nodup := by
  have hedge : (plan arcs).arcs.map (·.edge) = (arcs.filter (!·.isLoop)).map (·.edge) := by
    simp only [plan, turnArcs, List.map_map]
    refine List.map_congr_left fun a _ => ?_
    simp only [Function.comp_apply]
    split_ifs <;> rfl
  rw [hedge]
  exact hd.sublist (List.filter_sublist.map _)

theorem rank_lt_of_plan (hd : (arcs.map (·.edge)).Nodup) {a : Arc n} (ha : a ∈ (plan arcs).arcs) :
    (plan arcs).ranks.get a.source < (plan arcs).ranks.get a.target :=
  rank_lt_rank (acyclic_turned hd) ha

theorem isLoop_of_rank_ne {ranks : Vector ℕ n} {a : Arc n}
    (h : ranks.get a.source ≠ ranks.get a.target) : a.isLoop = false := by
  by_contra hl
  exact h (by rw [eq_of_beq (by simpa using hl : a.isLoop = true)])

/-- The stops of an edge, met on the way from its source to its target. -/
theorem waypoints_eq (hd : (arcs.map (·.edge)).Nodup) {a : Arc n} (ha : a ∈ arcs)
    (hl : a.isLoop = false) {α : Type} {centers : List (Stop n × Point α)} {f : Stop n → Point α}
    (hf : ∀ t ∈ allStops (plan arcs).ranks (plan arcs).arcs, centers.lookup t = some (f t)) :
    waypoints (plan arcs) centers (if a.edge ∈ (plan arcs).back then a.turned else a) =
      (passed (plan arcs).ranks a).map fun r => f (.via a.edge r) := by
  have hm := mem_plan_arcs ha hl
  have hlt := rank_lt_of_plan hd hm
  have hvias : ∀ b ∈ (plan arcs).arcs, (viasOf (plan arcs).ranks b).filterMap (centers.lookup ·) =
      (viasOf (plan arcs).ranks b).map f := fun b hb => by
    rw [← List.filterMap_eq_map]
    refine List.filterMap_congr fun t ht => ?_
    exact hf t (List.mem_append_right _ (List.mem_flatMap.mpr ⟨b, hb, ht⟩))
  simp only [waypoints, hvias _ hm]
  split_ifs at hlt ⊢ with hb hc hc
  · have hle : ¬ (plan arcs).ranks.get a.source ≤ (plan arcs).ranks.get a.target :=
      Nat.not_le.mpr hlt
    simp [viasOf, passed, hle, Arc.turned, Function.comp_def]
  · exact absurd hb (by simpa [Arc.turned] using hc)
  · exact absurd (by simpa using hc) hb
  · simp [viasOf, passed, hlt.le, Function.comp_def]

theorem find?_plan_arcs (hd : (arcs.map (·.edge)).Nodup) {b : Arc n} (hb : b ∈ (plan arcs).arcs) :
    (plan arcs).arcs.find? (·.edge == b.edge) = some b := by
  obtain ⟨c, hc⟩ := Option.isSome_iff_exists.mp
    ((List.find?_isSome (p := (·.edge == b.edge))).mpr ⟨b, hb, by simp⟩)
  have he : c.edge = b.edge := by simpa using List.find?_some hc
  rw [hc, List.inj_on_of_nodup_map (nodup_plan_edge hd) (List.mem_of_find?_eq_some hc) hb he]

end Plan

/-! ### The layout of a graph -/

/-- Every node has a size, and it is positive. -/
def Measured (g : Graph ℝ) : Prop := ∀ u ∈ g.nodes, ∃ w h, u.size? = some (w, h) ∧ 0 < w ∧ 0 < h

/-- The room that the stops of a graph take. -/
noncomputable def stopExtent (g : Graph ℝ) : Stop g.nodes.length → Extent ℝ :=
  Stop.extent g.direction (Vector.ofFn fun u => sizeOrZero (g.nodes.get u))

/-- Where a stop is drawn: at its seat, moved by `v`. -/
noncomputable def pointOf (d : Direction) (ranks : Vector ℕ n) (x : Stop n → ℝ) (y : ℕ → ℝ)
    (v : Point ℝ) (t : Stop n) : Point ℝ :=
  (orient d (x t) (y (t.rank ranks))).shift v

/-- `g'` is `g` with its nodes at the points of their stops, and with the edges that pass ranks led
over the points of theirs. -/
structure Arranged (g g' : Graph ℝ) (arcs : List (Arc g.nodes.length))
    (point : Stop g.nodes.length → Point ℝ) : Prop where
  length_nodes : g'.nodes.length = g.nodes.length
  node : ∀ u : Fin g.nodes.length, g'.nodes[(u : ℕ)]? =
    some { g.nodes.get u with x := some (point (.node u)).x, y := some (point (.node u)).y }
  edge : ∀ a ∈ arcs, passed (plan arcs).ranks a ≠ [] → ∃ e first last,
    g.edges[a.edge]? = some e ∧ g'.edges[a.edge]? = some { e with points :=
      first :: ((passed (plan arcs).ranks a).map (fun r => point (.via a.edge r)) ++ [last]) }

theorem Arranged.ids {g g' : Graph ℝ} {arcs : List (Arc g.nodes.length)}
    {point : Stop g.nodes.length → Point ℝ} (h : Arranged g g' arcs point) : g'.ids = g.ids := by
  refine List.ext_getElem (by simp [Graph.ids, h.length_nodes]) fun i _ hi => ?_
  rw [Graph.ids, List.length_map] at hi
  obtain ⟨_, hget⟩ := List.getElem?_eq_some_iff.mp (h.node ⟨i, hi⟩)
  simp only [Graph.ids, List.getElem_map, hget]
  rfl

/-- Three nodes of one size with the edges between them. -/
noncomputable def trio (direction : Direction) (edges : List (Edge ℝ)) : Graph ℝ :=
  { nodes := ["a", "b", "c"].map fun id => { id, label := id, width := some 40, height := some 20 }
    edges, direction, marginX := 10, marginY := 10, nodeGap := 30, rankGap := 50 }

/-- A graph of nodes with whole sizes. -/
noncomputable def sized (sizes : List (String × ℕ × ℕ)) (edges : List (Edge ℝ)) : Graph ℝ :=
  { nodes := sizes.map fun v =>
      { id := v.1, label := v.1, width := some v.2.1, height := some v.2.2 }
    edges, marginX := 10, marginY := 10, nodeGap := 50, rankGap := 50 }

theorem measured_trio (direction : Direction) (edges : List (Edge ℝ)) :
    Measured (trio direction edges) := by
  simp [Measured, trio, Node.size?]

theorem measured_sized {sizes : List (String × ℕ × ℕ)} (edges : List (Edge ℝ))
    (h : ∀ v ∈ sizes, 0 < v.2.1 ∧ 0 < v.2.2) : Measured (sized sizes edges) := by
  intro v hv
  obtain ⟨u, hu, rfl⟩ := List.mem_map.mp hv
  exact ⟨_, _, rfl, Nat.cast_pos.mpr (h u hu).1, Nat.cast_pos.mpr (h u hu).2⟩

theorem stopExtent_node (g : Graph ℝ) (u : Fin g.nodes.length) :
    stopExtent g (.node u) = extentOf g.direction (sizeOrZero (g.nodes.get u)) := by
  simp [stopExtent, Stop.extent, get_eq_getElem]

theorem stopExtent_via (g : Graph ℝ) (i r : ℕ) : stopExtent g (.via i r) = ⟨0, 0⟩ := by
  simp only [stopExtent, Stop.extent]
  norm_num

theorem extent_pos {g : Graph ℝ} (h : Measured g) (u : Fin g.nodes.length) :
    0 < (stopExtent g (.node u)).across ∧ 0 < (stopExtent g (.node u)).along := by
  obtain ⟨w, k, hs, hw, hk⟩ := h _ (List.get_mem g.nodes u)
  rw [stopExtent_node, sizeOrZero, hs]
  simp only [Option.getD_some, extentOf]
  split_ifs <;> simp [hw, hk]

theorem extent_nonneg {g : Graph ℝ} (h : Measured g) (t : Stop g.nodes.length) :
    0 ≤ (stopExtent g t).across ∧ 0 ≤ (stopExtent g t).along := by
  cases t with
  | node u => exact ⟨(extent_pos h u).1.le, (extent_pos h u).2.le⟩
  | via i r => simp [stopExtent_via]

theorem mem_allStops_node {ranks : Vector ℕ n} {arcs : List (Arc n)} (u : Fin n) :
    Stop.node u ∈ allStops ranks arcs :=
  List.mem_append_left _ (List.mem_map_of_mem (List.mem_finRange u))

section PlaceAlong

variable {α : Type} [Scalar α]

theorem placeAlong_ids (g : Graph α) (arcs : List (Arc g.nodes.length)) :
    (placeAlong g arcs).ids = g.ids := by
  refine List.ext_getElem (by simp [placeAlong, Graph.ids]) fun i _ _ => ?_
  simp [placeAlong, Graph.ids]

/-- The box of a node around the point of its stop. -/
def placedAt (g : Graph α) (f : Stop g.nodes.length → Point α) (u : Fin g.nodes.length) :
    Placed α :=
  placedOf (g.nodes.get u) (f (.node u))

variable {g : Graph α} {arcs : List (Arc g.nodes.length)} {f : Stop g.nodes.length → Point α}
  (hr : g.Represents arcs)
  (hf : ∀ t ∈ allStops (plan arcs).ranks (plan arcs).arcs,
    (pack ⟨g.direction, g.nodeGap, g.rankGap⟩
      (Vector.ofFn fun u => sizeOrZero (g.nodes.get u)) (plan arcs).rows).lookup t = some (f t))
include hf

theorem placeAlong_node (u : Fin g.nodes.length) : (placeAlong g arcs).nodes[(u : ℕ)]? =
    some { g.nodes.get u with x := some (f (.node u)).x, y := some (f (.node u)).y } := by
  have hu := hf (.node u) (mem_allStops_node u)
  have hget : (List.finRange g.nodes.length)[(u : ℕ)]? = some u := by simp
  simp only [placeAlong, List.getElem?_map, hget, Option.map_some, hu]

include hr

/-- The route of an edge that is no loop.  Its own point, if it passes no rank, takes account of the
edges that join the same nodes. -/
theorem placeAlong_shared {a : Arc g.nodes.length} (ha : a ∈ arcs) (hl : a.isLoop = false) :
    ∃ e, g.edges[a.edge]? = some e ∧ (placeAlong g arcs).edges[a.edge]? = some
      { e with
        points := routeThrough (placedAt g f a.source) (placedAt g f a.target)
          ((passed (plan arcs).ranks a).map fun r => f (.via a.edge r))
          (directMiddle g.nodeGap (shareOf (g.edges.take a.edge) g.edges e) (placedAt g f a.source)
            (placedAt g f a.target) (e.source ≤ e.target)) } := by
  obtain ⟨e, he, hs, ht⟩ := hr.exists_edge ha
  have hne : e.source ≠ e.target := fun h => by
    rw [h, ht] at hs
    simp [Arc.isLoop, Option.some.inj hs] at hl
  have hvia := waypoints_eq hr.nodup_edge ha hl hf
  have hfind := find?_plan_arcs hr.nodup_edge (mem_plan_arcs ha hl)
  have hedge : (if a.edge ∈ (plan arcs).back then a.turned else a).edge = a.edge := by
    split_ifs <;> rfl
  rw [hedge] at hfind
  -- the edges are routed in the graph whose nodes have been placed
  obtain ⟨placed, via, hnodes, hedges, hgap, hroutes, hvia'⟩ :
      ∃ (placed : Graph α) (via : ℕ → List (Point α)),
      placed.nodes = (placeAlong g arcs).nodes ∧ placed.edges = g.edges ∧
      placed.nodeGap = g.nodeGap ∧
      (placeAlong g arcs).edges = routeEdges placed via [] g.edges ∧
      via a.edge = (passed (plan arcs).ranks a).map fun r => f (.via a.edge r) := by
    refine ⟨{ placeAlong g arcs with edges := g.edges }, _, rfl, rfl, rfl, rfl, ?_⟩
    simp only [hfind]
    exact hvia
  have hids : placed.ids = g.ids := by
    rw [Graph.ids, hnodes]
    exact placeAlong_ids g arcs
  have hroute := routeEdge_through via (g.edges.take a.edge) a.edge
    ((node?_of_number? hids hs).trans (hnodes ▸ placeAlong_node hf a.source))
    ((node?_of_number? hids ht).trans (hnodes ▸ placeAlong_node hf a.target)) rfl rfl hne
  refine ⟨e, he, ?_⟩
  rw [hroutes, getElem?_routeEdges, he, Option.map_some, List.nil_append, List.length_nil,
    Nat.zero_add, hroute, hvia', hedges, hgap]
  rfl

/-- The route of an edge that is no loop, whatever other edges join the same nodes. -/
theorem placeAlong_route {a : Arc g.nodes.length} (ha : a ∈ arcs) (hl : a.isLoop = false) :
    ∃ e share inOrder route, g.edges[a.edge]? = some e ∧
      (placeAlong g arcs).edges[a.edge]? = some { e with points := route } ∧
      route = routeThrough (placedAt g f a.source) (placedAt g f a.target)
        ((passed (plan arcs).ranks a).map fun r => f (.via a.edge r))
        (directMiddle g.nodeGap share (placedAt g f a.source) (placedAt g f a.target) inOrder) := by
  obtain ⟨e, he, hroute⟩ := placeAlong_shared hr hf ha hl
  exact ⟨e, _, _, _, he, hroute, rfl⟩

theorem placeAlong_edge {a : Arc g.nodes.length} (ha : a ∈ arcs)
    (hp : passed (plan arcs).ranks a ≠ []) : ∃ e first last,
    g.edges[a.edge]? = some e ∧ (placeAlong g arcs).edges[a.edge]? = some { e with points :=
      first :: ((passed (plan arcs).ranks a).map (fun r => f (.via a.edge r)) ++ [last]) } := by
  have hl : a.isLoop = false := isLoop_of_rank_ne fun h : (plan arcs).ranks.get a.source = _ =>
    hp (by simp [passed, h])
  obtain ⟨e, share, inOrder, route, he, hroute, hthrough⟩ := placeAlong_route hr hf ha hl
  have hvia : (passed (plan arcs).ranks a).map (fun r => f (.via a.edge r)) ≠ [] :=
    mt List.map_eq_nil_iff.mp hp
  obtain ⟨first, last, heq⟩ := routeThrough_of_ne_nil (placedAt g f a.source)
    (placedAt g f a.target) hvia (directMiddle g.nodeGap share (placedAt g f a.source)
      (placedAt g f a.target) inOrder)
  exact ⟨e, first, last, he, by rw [hroute, hthrough, heq]⟩

end PlaceAlong

/-- `g'` is the graph placed along the arcs, moved by a vector. -/
structure MovedBy (g g' : Graph ℝ) (arcs : List (Arc g.nodes.length)) (v : Point ℝ) : Prop where
  nodes : g'.nodes = (placeAlong g arcs).nodes.map fun u =>
    { u with x := u.x.map (· + v.x), y := u.y.map (· + v.y) }
  edges : g'.edges = (placeAlong g arcs).edges.map fun e =>
    { e with points := e.points.map (·.shift v) }

/-- **A layout is a graph placed on the middle lines of its bands and moved.** -/
theorem layout_moved (g : Graph ℝ) (hj : g.Joined) (hm : Measured g) (hn : 0 ≤ g.nodeGap)
    (hk : 0 ≤ g.rankGap) :
    ∃ (arcs : List (Arc g.nodes.length)) (g' : Graph ℝ) (size : ℝ × ℝ)
      (x : Stop g.nodes.length → ℝ) (v : Point ℝ), g.arcs = .ok arcs ∧ g.Represents arcs ∧
      layout g = .ok (g', size) ∧ MovedBy g g' arcs v ∧
      Seating (plan arcs).ranks (plan arcs).arcs ⟨g.direction, g.nodeGap, g.rankGap⟩ (stopExtent g)
        (pack ⟨g.direction, g.nodeGap, g.rankGap⟩
          (Vector.ofFn fun u => sizeOrZero (g.nodes.get u)) (plan arcs).rows)
        x (bandMiddle ⟨g.direction, g.nodeGap, g.rankGap⟩ (stopExtent g) (plan arcs).rows) := by
  obtain ⟨arcs, ha, hr⟩ := Graph.arcs_of_joined hj
  have hrows : RowsOf (plan arcs).ranks (plan arcs).arcs (plan arcs).rows :=
    rowsOf_order (nodup_plan_edge hr.nodup_edge)
  obtain ⟨x, hs⟩ := exists_seating hrows
    ⟨g.direction, g.nodeGap, g.rankGap⟩ (Vector.ofFn fun u => sizeOrZero (g.nodes.get u)) hn hk
    (fun t => (extent_nonneg hm t).1) (fun t => (extent_nonneg hm t).2)
  obtain ⟨v, w, h, hframe⟩ := frame_eq (placeAlong g arcs)
  have hl := layout_of_arcs ha
  rw [hframe] at hl
  exact ⟨arcs, _, _, x, v, ha, hr, hl, ⟨rfl, rfl⟩, hs⟩

theorem arranged_of_movedBy {g g' : Graph ℝ} {arcs : List (Arc g.nodes.length)}
    {x : Stop g.nodes.length → ℝ} {y : ℕ → ℝ} {v : Point ℝ} (hr : g.Represents arcs)
    (hg : MovedBy g g' arcs v)
    (hs : Seating (plan arcs).ranks (plan arcs).arcs ⟨g.direction, g.nodeGap, g.rankGap⟩
      (stopExtent g) (pack ⟨g.direction, g.nodeGap, g.rankGap⟩
        (Vector.ofFn fun u => sizeOrZero (g.nodes.get u)) (plan arcs).rows) x y) :
    Arranged g g' arcs (pointOf g.direction (plan arcs).ranks x y v) := by
  refine ⟨?_, fun u => ?_, fun a ha hp => ?_⟩
  · simp [hg.nodes, placeAlong]
  · simp [hg.nodes, placeAlong_node hs.lookup u, pointOf, Point.shift]
  · obtain ⟨e, first, last, he, hpl⟩ := placeAlong_edge hr hs.lookup ha hp
    refine ⟨e, first.shift v, last.shift v, he, ?_⟩
    simp [hg.edges, hpl, pointOf]

/-- **A layout seats the stops of its graph** and leaves ids, labels, sizes and ends alone. -/
theorem layout_seated (g : Graph ℝ) (hj : g.Joined) (hm : Measured g) (hn : 0 ≤ g.nodeGap)
    (hk : 0 ≤ g.rankGap) :
    ∃ (arcs : List (Arc g.nodes.length)) (g' : Graph ℝ) (size : ℝ × ℝ)
      (centers : List (Stop g.nodes.length × Point ℝ)) (x : Stop g.nodes.length → ℝ) (y : ℕ → ℝ)
      (v : Point ℝ), g.arcs = .ok arcs ∧ g.Represents arcs ∧ layout g = .ok (g', size) ∧
      Seating (plan arcs).ranks (plan arcs).arcs ⟨g.direction, g.nodeGap, g.rankGap⟩ (stopExtent g)
        centers x y ∧
      Arranged g g' arcs (pointOf g.direction (plan arcs).ranks x y v) := by
  obtain ⟨arcs, g', size, x, v, ha, hr, hl, hg, hs⟩ := layout_moved g hj hm hn hk
  exact ⟨arcs, g', size, _, x, _, v, ha, hr, hl, hs, arranged_of_movedBy hr hg hs⟩

end Scrawl.Layered
