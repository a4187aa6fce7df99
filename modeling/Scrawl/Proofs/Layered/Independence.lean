import Scrawl.Proofs.Layered.Completeness

/-!
# Scrawl.Proofs.Layered.Independence — a layout forgets the geometry that was there before

A graph without its computed geometry (`Graph.cleared`) keeps names, labels, node sizes, ends of
edges, direction, gaps and margins.  The layered layout changes nothing else, and its outcome
depends on nothing else.

* `cleared_of_layout`: a layout changes nothing but geometry.
* `layout_cleared`: the layout of a graph is that of the graph without its geometry.
* `layout_congr`: graphs that differ in geometry alone have one layout.
-/

namespace Scrawl

variable {α : Type}

/-! ### Graphs without their geometry -/

/-- The node as it was measured, without its centre. -/
def Node.cleared (v : Node α) : Node α := { v with x := none, y := none }

/-- The edge without its route. -/
def Edge.cleared (e : Edge α) : Edge α := { e with points := [] }

namespace Graph

/-- The graph without routes and its own size. -/
def unrouted (g : Graph α) : Graph α :=
  { g with edges := g.edges.map Edge.cleared, width := none, height := none }

/-- The graph without centres, routes and its own size. -/
def cleared (g : Graph α) : Graph α := { g.unrouted with nodes := g.nodes.map Node.cleared }

@[simp] theorem nodes_cleared (g : Graph α) : g.cleared.nodes = g.nodes.map Node.cleared := rfl

@[simp] theorem edges_cleared (g : Graph α) : g.cleared.edges = g.edges.map Edge.cleared := rfl

theorem cleared_cleared (g : Graph α) : g.cleared.cleared = g.cleared := by
  simp [cleared, unrouted, Node.cleared, Edge.cleared, Function.comp_def]

@[simp] theorem ids_cleared (g : Graph α) : g.cleared.ids = g.ids := by
  simp [ids, Node.cleared]

theorem joined_cleared {g : Graph α} : g.cleared.Joined ↔ g.Joined := by
  simp [Joined, Edge.cleared]

theorem sizeFault?_cleared {g : Graph α} : g.cleared.sizeFault? = none ↔ g.sizeFault? = none := by
  simp [sizeFault?_eq_none, Node.cleared, Node.isSized]

section SameCleared

variable {g g' : Graph α} (h : g'.cleared = g.cleared)
include h

theorem ids_of_cleared : g'.ids = g.ids := by
  rw [← ids_cleared g', h, ids_cleared]

theorem joined_of_cleared (hj : g.Joined) : g'.Joined :=
  joined_cleared.mp (h ▸ joined_cleared.mpr hj)

theorem sizeFault?_of_cleared (hs : g.sizeFault? = none) : g'.sizeFault? = none :=
  sizeFault?_cleared.mp (h ▸ sizeFault?_cleared.mpr hs)

end SameCleared

end Graph

namespace Layered

variable [Scalar α]

/-! ### What a layout changes -/

theorem cleared_frame (g : Graph α) : (frame g).1.cleared = g.cleared := by
  simp [frame, Graph.cleared, Graph.unrouted, Node.cleared, Edge.cleared, Function.comp_def]

theorem cleared_routeEdges (g : Graph α) (via : ℕ → List (Point α)) (edges : List (Edge α)) :
    ∀ earlier, (routeEdges g via earlier edges).map Edge.cleared = edges.map Edge.cleared := by
  induction edges with
  | nil => exact fun _ => rfl
  | cons e edges ih => exact fun earlier => congrArg (e.cleared :: ·) (ih _)

theorem cleared_placeAlong (g : Graph α) (arcs : List (Arc g.nodes.length)) :
    (placeAlong g arcs).cleared = g.cleared := by
  have hnodes : (placeAlong g arcs).nodes.map Node.cleared = g.nodes.map Node.cleared := by
    conv_rhs => rw [← List.map_get_finRange g.nodes, List.map_map]
    simp [placeAlong, Node.cleared, Function.comp_def]
  have hedges : (placeAlong g arcs).edges.map Edge.cleared = g.edges.map Edge.cleared :=
    cleared_routeEdges _ _ _ _
  simp only [Graph.cleared, Graph.unrouted, hnodes, hedges]
  rfl

theorem edges_placeAlong_length (g : Graph α) (arcs : List (Arc g.nodes.length)) :
    (placeAlong g arcs).edges.length = g.edges.length := by
  simpa [Graph.cleared, Graph.unrouted] using
    congrArg (·.edges.length) (cleared_placeAlong g arcs)

theorem layout_eq_ok {g : Graph α} {laid : Graph α × (α × α)} (h : layout g = .ok laid) :
    ∃ arcs, g.arcs = .ok arcs ∧ frame (placeAlong g arcs) = laid := by
  unfold layout at h
  cases ha : g.arcs with
  | error id =>
    rw [ha] at h
    cases h
  | ok arcs =>
    rw [ha] at h
    cases h
    exact ⟨arcs, rfl, rfl⟩

/-- **A layout changes nothing but geometry.** -/
theorem cleared_of_layout {g g' : Graph α} {size : α × α} (h : layout g = .ok (g', size)) :
    g'.cleared = g.cleared := by
  obtain ⟨arcs, -, hframe⟩ := layout_eq_ok h
  have hsame := cleared_frame (placeAlong g arcs)
  rw [hframe] at hsame
  exact hsame.trans (cleared_placeAlong g arcs)

theorem size_of_layout {g g' : Graph α} {size : α × α} (h : layout g = .ok (g', size)) :
    g'.width = some size.1 ∧ g'.height = some size.2 := by
  obtain ⟨arcs, -, hframe⟩ := layout_eq_ok h
  cases hframe
  exact ⟨rfl, rfl⟩

/-! ### Routes without routes -/

/-- Both ends of the edge are nodes that have been placed. -/
def Reached (g : Graph α) (e : Edge α) : Prop :=
  ∃ s t c d, g.node? e.source = some s ∧ g.node? e.target = some t ∧ s.center? = some c ∧
    t.center? = some d

omit [Scalar α] in
theorem joinsSame_cleared (e f : Edge α) : joinsSame e.cleared f.cleared = joinsSame e f := rfl

omit [Scalar α] in
theorem shareOf_cleared (earlier all : List (Edge α)) (e : Edge α) :
    shareOf (earlier.map Edge.cleared) (all.map Edge.cleared) e.cleared =
      shareOf earlier all e := by
  simp [shareOf, List.countP_map, Function.comp_def, joinsSame_cleared]

/-- A route between placed nodes does not depend on the routes that the edges had. -/
theorem routeEdge_cleared {g : Graph α} {e : Edge α} (he : Reached g e)
    (via : ℕ → List (Point α)) (earlier : List (Edge α)) (i : ℕ) :
    routeEdge g.unrouted via (earlier.map Edge.cleared) i e.cleared =
      routeEdge g via earlier i e := by
  obtain ⟨s, t, c, d, hs, ht, hc, hd⟩ := he
  have hs' : g.unrouted.node? e.cleared.source = some s := hs
  have ht' : g.unrouted.node? e.cleared.target = some t := ht
  have hshare : shareOf (earlier.map Edge.cleared) g.unrouted.edges e.cleared =
      shareOf earlier g.edges e := shareOf_cleared _ _ _
  unfold routeEdge
  rw [hs, ht, hs', ht']
  dsimp only
  rw [hc, hd]
  dsimp only
  rw [hshare]
  rfl

theorem routeEdges_cleared {g : Graph α} (via : ℕ → List (Point α)) (edges : List (Edge α)) :
    ∀ earlier, (∀ e ∈ edges, Reached g e) →
      routeEdges g.unrouted via (earlier.map Edge.cleared) (edges.map Edge.cleared) =
        routeEdges g via earlier edges := by
  induction edges with
  | nil => exact fun _ _ => rfl
  | cons e edges ih =>
    intro earlier h
    have hroute := routeEdge_cleared (h e List.mem_cons_self) via earlier earlier.length
    have hrest := ih (earlier ++ [e]) fun f hf => h f (List.mem_cons_of_mem _ hf)
    rw [List.map_append, List.map_singleton] at hrest
    rw [List.map_cons, routeEdges, routeEdges, List.length_map, hroute, hrest]
    rfl

/-! ### Layouts over numbered nodes

The numbers of the nodes of a graph and those of the graph without its geometry have different
types.  So the layout is stated over any numbering with `n` numbers. -/

section Numbered

variable {n : ℕ}

/-- The arcs of edges, by the numbers of their ends. -/
def arcsBy (number? : String → Option (Fin n)) (edges : List (Edge α)) :
    Except String (List (Arc n)) :=
  ((List.range edges.length).zip edges).mapM fun (i, e) =>
    match number? e.source, number? e.target with
    | some s, some t => .ok ⟨i, s, t⟩
    | none, _ => .error e.source
    | _, none => .error e.target

/-- The graph with its nodes placed along arcs between their numbers. -/
def nodesBy (g : Graph α) (node : Fin n → Node α) (arcs : List (Arc n)) : Graph α :=
  let sizes := Vector.ofFn fun v => sizeOrZero (node v)
  let centers := pack ⟨g.direction, g.nodeGap, g.rankGap⟩ sizes (plan arcs).rows
  { g with nodes := (List.finRange n).map fun v =>
      let c := centers.lookup (.node v)
      { node v with x := c.map (·.x), y := c.map (·.y) } }

/-- The middle points of an edge, by its number. -/
def viaBy (g : Graph α) (node : Fin n → Node α) (arcs : List (Arc n)) (i : ℕ) : List (Point α) :=
  let sizes := Vector.ofFn fun v => sizeOrZero (node v)
  let centers := pack ⟨g.direction, g.nodeGap, g.rankGap⟩ sizes (plan arcs).rows
  match (plan arcs).arcs.find? (·.edge == i) with
  | some a => waypoints (plan arcs) centers a
  | none => []

/-- The graph placed and routed along arcs between the numbers of its nodes. -/
def placeBy (g : Graph α) (node : Fin n → Node α) (arcs : List (Arc n)) : Graph α :=
  { nodesBy g node arcs with
    edges := routeEdges (nodesBy g node arcs) (viaBy g node arcs) [] g.edges }

omit [Scalar α] in
theorem arcs_eq_arcsBy (g : Graph α) : g.arcs = arcsBy g.number? g.edges := by
  unfold Graph.arcs Graph.arcsOf arcsBy
  congr 1
  funext ⟨i, e⟩
  dsimp only
  cases g.number? e.source <;> cases g.number? e.target <;> rfl

theorem placeAlong_eq_placeBy (g : Graph α) (arcs : List (Arc g.nodes.length)) :
    placeAlong g arcs = placeBy g g.nodes.get arcs := by
  obtain ⟨via, hvia, h⟩ : ∃ via, (∀ i, via i = viaBy g g.nodes.get arcs i) ∧
      placeAlong g arcs = { nodesBy g g.nodes.get arcs with
        edges := routeEdges (nodesBy g g.nodes.get arcs) via [] g.edges } := by
    refine ⟨_, fun i => ?_, rfl⟩
    unfold viaBy
    cases (plan arcs).arcs.find? (·.edge == i) <;> rfl
  rw [h, funext hvia]
  rfl

/-- The outcome of a layout over numbered nodes. -/
def layoutBy (g : Graph α) (number? : String → Option (Fin n)) (node : Fin n → Node α) :
    Except String (Graph α × (α × α)) := do
  return frame (placeBy g node (← arcsBy number? g.edges))

theorem layout_eq_layoutBy (g : Graph α) : layout g = layoutBy g g.number? g.nodes.get := by
  unfold layout layoutBy
  simp only [arcs_eq_arcsBy, placeAlong_eq_placeBy]

/-- A layout does not depend on what the numbers are. -/
theorem layout_eq_of_length {g : Graph α} (h : g.nodes.length = n) :
    layout g = layoutBy g (fun id => (g.number? id).map (Fin.cast h))
      fun v => g.nodes.get (v.cast h.symm) := by
  subst h
  have hnumber : (fun id => (g.number? id).map (Fin.cast rfl)) = g.number? := by
    funext id
    simp
  rw [layout_eq_layoutBy, hnumber]
  rfl

end Numbered

/-! ### Layouts without the geometry of before -/

omit [Scalar α] in
theorem get_cleared (g : Graph α) (v : Fin g.cleared.nodes.length)
    (h : g.cleared.nodes.length = g.nodes.length) :
    g.cleared.nodes.get v = (g.nodes.get (v.cast h)).cleared :=
  List.getElem_map _

theorem layout_cleared_eq (g : Graph α) :
    layout g.cleared = layoutBy g.cleared g.number? fun v => (g.nodes.get v).cleared := by
  have h : g.cleared.nodes.length = g.nodes.length := List.length_map _
  rw [layout_eq_of_length h, funext (Graph.number?_of_ids (Graph.ids_cleared g) h)]
  congr 1
  funext v
  exact get_cleared g _ h

omit [Scalar α] in
theorem arcsBy_cleared {n : ℕ} (number? : String → Option (Fin n)) (edges : List (Edge α)) :
    arcsBy number? (edges.map Edge.cleared) = arcsBy number? edges := by
  unfold arcsBy
  rw [List.length_map, List.zip_map_right, List.mapM_map]
  rfl

theorem reached_nodesBy {g : Graph α} {arcs : List (Arc g.nodes.length)} (hr : g.Represents arcs)
    (hj : g.Joined) {e : Edge α} (he : e ∈ g.edges) :
    Reached (nodesBy g g.nodes.get arcs) e := by
  have hnodes : (nodesBy g g.nodes.get arcs).nodes = (placeAlong g arcs).nodes := rfl
  have hids : (nodesBy g g.nodes.get arcs).ids = g.ids := placeAlong_ids g arcs
  obtain ⟨hsource, htarget⟩ := hj e he
  obtain ⟨s, hs⟩ := Graph.exists_number hsource
  obtain ⟨t, ht⟩ := Graph.exists_number htarget
  have hplaced := placeAlong_node (lookup_centerOf hr)
  exact ⟨_, _, _, _, (node?_of_number? hids hs).trans (hnodes ▸ hplaced s),
    (node?_of_number? hids ht).trans (hnodes ▸ hplaced t), rfl, rfl⟩

/-- **The layout of a graph is that of the graph without its geometry.** -/
theorem layout_cleared {g : Graph α} (hj : g.Joined) : layout g.cleared = layout g := by
  obtain ⟨arcs, ha, hr⟩ := Graph.arcs_of_joined hj
  have hplace : frame (placeBy g.cleared (fun v => (g.nodes.get v).cleared) arcs) =
      frame (placeBy g g.nodes.get arcs) := by
    have hroutes := routeEdges_cleared (viaBy g g.nodes.get arcs) g.edges []
      fun e he => reached_nodesBy hr hj he
    -- the frame writes the size of the graph anew
    exact congrArg (fun edges => frame { nodesBy g g.nodes.get arcs with edges }) hroutes
  rw [layout_cleared_eq, layout_eq_layoutBy]
  unfold layoutBy
  rw [Graph.edges_cleared, arcsBy_cleared, ← arcs_eq_arcsBy, ha]
  exact congrArg Except.ok hplace

/-- **Graphs that differ in geometry alone have one layout.** -/
theorem layout_congr {g g' : Graph α} (hj : g.Joined) (h : g'.cleared = g.cleared) :
    layout g' = layout g := by
  rw [← layout_cleared (Graph.joined_of_cleared h hj), h, layout_cleared hj]

end Layered

end Scrawl
