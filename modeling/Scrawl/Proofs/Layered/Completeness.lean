import Scrawl.Proofs.Layered.Placement

/-!
# Scrawl.Proofs.Layered.Completeness — a layout leaves no geometry out

Whatever the numbers are, a graph whose edges join its nodes and whose nodes have sizes can be laid
out, and then has all the geometry that a drawing needs.

* `geometryFault?_eq_none`: what a drawing needs, part by part.
* `isPlaced_placeAlong`, `isRouted_placeAlong`: nodes get their centres and edges their routes.
* `layout_complete`: the layout of a graph can be drawn.
-/

namespace Scrawl

variable {α : Type}

/-! ### What a drawing needs -/

theorem Node.isSized_iff {v : Node α} : v.isSized ↔ v.size?.isSome := by
  cases hw : v.width <;> cases hh : v.height <;> simp [Node.isSized, Node.size?, hw, hh]

theorem Node.isPlaced_iff {v : Node α} : v.isPlaced ↔ v.center?.isSome := by
  cases hx : v.x <;> cases hy : v.y <;> simp [Node.isPlaced, Node.center?, hx, hy]

theorem Node.exists_size {v : Node α} (h : v.isSized) : ∃ s, v.size? = some s :=
  Option.isSome_iff_exists.mp (Node.isSized_iff.mp h)

theorem Node.exists_center {v : Node α} (h : v.isPlaced) : ∃ c, v.center? = some c :=
  Option.isSome_iff_exists.mp (Node.isPlaced_iff.mp h)

namespace Graph

theorem sizeFault?_eq_none {g : Graph α} : g.sizeFault? = none ↔ ∀ u ∈ g.nodes, u.isSized := by
  unfold sizeFault?
  constructor
  · intro h u hu
    by_contra hs
    have hmem : u.id ∈ (g.nodes.filter (!·.isSized)).map (·.id) :=
      List.mem_map_of_mem (List.mem_filter.mpr ⟨hu, by simpa using hs⟩)
    split at h
    · next hnil =>
      rw [hnil] at hmem
      cases hmem
    · cases h
  · intro h
    have hnil : g.nodes.filter (!·.isSized) = [] :=
      List.filter_eq_nil_iff.mpr fun u hu => by simp [h u hu]
    rw [hnil]
    rfl

/-- Sizes, centres, routes and the size of the graph are all that a drawing needs. -/
theorem geometryFault?_eq_none {g : Graph α} : g.geometryFault? = none ↔
    (∀ u ∈ g.nodes, u.isSized) ∧ (∀ u ∈ g.nodes, u.isPlaced) ∧ (∀ e ∈ g.edges, e.isRouted) ∧
      g.width.isSome ∧ g.height.isSome := by
  have hplaced : g.nodes.filter (!·.isPlaced) = [] ↔ ∀ u ∈ g.nodes, u.isPlaced := by
    simp [List.filter_eq_nil_iff]
  have hrouted : g.edges.find? (!·.isRouted) = none ↔ ∀ e ∈ g.edges, e.isRouted := by
    simp [List.find?_eq_none]
  rw [← sizeFault?_eq_none, ← hplaced, ← hrouted]
  unfold geometryFault?
  cases g.sizeFault? with
  | some fault => simp
  | none =>
    cases g.nodes.filter (!·.isPlaced) with
    | cons u us => simp
    | nil =>
      cases g.edges.find? (!·.isRouted) with
      | some e => simp
      | none =>
        cases g.width with
        | none => simp
        | some w => cases g.height <;> simp

end Graph

namespace Layered

variable [Scalar α]

/-! ### Centres and routes -/

/-- A route has two points at least. -/
theorem length_routeEdge {g : Graph α} (via : ℕ → List (Point α)) (earlier : List (Edge α)) (i : ℕ)
    {e : Edge α} {s t : Node α} {c d : Point α} (hs : g.node? e.source = some s)
    (ht : g.node? e.target = some t) (hc : s.center? = some c) (hd : t.center? = some d) :
    2 ≤ (routeEdge g via earlier i e).length := by
  simp only [routeEdge, hs, ht, hc, hd]
  split_ifs
  · simp [loopRoute]
  · cases via i with
    | nil => simp [routeOver]
    | cons p ps => simp [routeOver]

/-- The centre that packing gives a stop. -/
def centerOf (g : Graph α) (arcs : List (Arc g.nodes.length)) (t : Stop g.nodes.length) :
    Point α :=
  ((pack ⟨g.direction, g.nodeGap, g.rankGap⟩ (Vector.ofFn fun u => sizeOrZero (g.nodes.get u))
    (plan arcs).rows).lookup t).getD ⟨0.0, 0.0⟩

theorem nodes_placeAlong_length (g : Graph α) (arcs : List (Arc g.nodes.length)) :
    (placeAlong g arcs).nodes.length = g.nodes.length := by
  simp [placeAlong]

section PlaceAlong

variable {g : Graph α} {arcs : List (Arc g.nodes.length)} (hr : g.Represents arcs)
include hr

theorem lookup_centerOf : ∀ t ∈ allStops (plan arcs).ranks (plan arcs).arcs,
    (pack ⟨g.direction, g.nodeGap, g.rankGap⟩
      (Vector.ofFn fun u => sizeOrZero (g.nodes.get u)) (plan arcs).rows).lookup t =
      some (centerOf g arcs t) := by
  intro t ht
  have hrows : RowsOf (plan arcs).ranks (plan arcs).arcs (plan arcs).rows :=
    rowsOf_order (nodup_plan_edge hr.nodup_edge)
  have hlt := hrows.rank_lt t ht
  have hmem : t ∈ (plan arcs).rows.flatten :=
    List.mem_flatten.mpr ⟨_, List.getElem_mem hlt, (hrows.mem_row _ hlt t).mpr ⟨ht, rfl⟩⟩
  obtain ⟨c, hc⟩ := exists_lookup_pack ⟨g.direction, g.nodeGap, g.rankGap⟩
    (Vector.ofFn fun u => sizeOrZero (g.nodes.get u)) hmem
  rw [centerOf, hc]
  rfl

/-- Every node gets a centre and keeps its size. -/
theorem isPlaced_placeAlong {u : Node α} (hu : u ∈ (placeAlong g arcs).nodes) :
    u.isPlaced ∧ ∃ u₀ ∈ g.nodes, u.isSized = u₀.isSized := by
  obtain ⟨i, hi, rfl⟩ := List.getElem_of_mem hu
  have hnode := placeAlong_node (lookup_centerOf hr) ⟨i, nodes_placeAlong_length g arcs ▸ hi⟩
  rw [List.getElem?_eq_getElem hi, Option.some.injEq] at hnode
  rw [hnode]
  exact ⟨rfl, _, List.get_mem _ _, rfl⟩

/-- Every edge gets a route. -/
theorem isRouted_placeAlong (hj : g.Joined) {e : Edge α} (he : e ∈ (placeAlong g arcs).edges) :
    e.isRouted := by
  obtain ⟨placed, via, hnodes, hroutes⟩ : ∃ (placed : Graph α) (via : ℕ → List (Point α)),
      placed.nodes = (placeAlong g arcs).nodes ∧
      (placeAlong g arcs).edges = routeEdges placed via [] g.edges :=
    ⟨{ placeAlong g arcs with edges := g.edges }, _, rfl, rfl⟩
  have hids : placed.ids = g.ids := by
    rw [Graph.ids, hnodes]
    exact placeAlong_ids g arcs
  obtain ⟨i, hi⟩ := List.mem_iff_getElem?.mp (hroutes ▸ he)
  rw [getElem?_routeEdges] at hi
  obtain ⟨e₀, he₀, rfl⟩ := Option.map_eq_some_iff.mp hi
  obtain ⟨hsource, htarget⟩ := hj e₀ (List.mem_of_getElem? he₀)
  obtain ⟨s, hs⟩ := Graph.exists_number hsource
  obtain ⟨t, ht⟩ := Graph.exists_number htarget
  have hplaced := placeAlong_node (lookup_centerOf hr)
  have hlen := length_routeEdge via (g.edges.take i) (0 + i)
    ((node?_of_number? hids hs).trans (hnodes ▸ hplaced s))
    ((node?_of_number? hids ht).trans (hnodes ▸ hplaced t)) rfl rfl
  simpa [Edge.isRouted] using hlen

end PlaceAlong

/-! ### The layout of a graph -/

/-- **The layout of a graph can be drawn**, if its edges join its nodes and its nodes have sizes. -/
theorem layout_complete {g : Graph α} (hj : g.Joined) (hs : g.sizeFault? = none) :
    ∃ g' size, layout g = .ok (g', size) ∧ g'.geometryFault? = none := by
  obtain ⟨arcs, ha, hr⟩ := Graph.arcs_of_joined hj
  have hl := layout_of_arcs ha
  refine ⟨_, _, hl, Graph.geometryFault?_eq_none.mpr
    ⟨fun u hu => ?_, fun u hu => ?_, fun e he => ?_, rfl, rfl⟩⟩
  · obtain ⟨v, hv, rfl⟩ := List.mem_map.mp hu
    obtain ⟨-, v₀, hv₀, hsize⟩ := isPlaced_placeAlong hr hv
    exact hsize.trans (Graph.sizeFault?_eq_none.mp hs v₀ hv₀)
  · obtain ⟨v, hv, rfl⟩ := List.mem_map.mp hu
    obtain ⟨hplaced, -⟩ := isPlaced_placeAlong hr hv
    simpa [Node.isPlaced] using hplaced
  · obtain ⟨e₀, he₀, rfl⟩ := List.mem_map.mp he
    have hrouted := isRouted_placeAlong hr hj he₀
    simpa [Edge.isRouted] using hrouted

end Layered

end Scrawl
