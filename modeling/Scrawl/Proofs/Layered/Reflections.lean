import Scrawl.Proofs.Layered.Completeness
import Scrawl.Proofs.Layered.Mirrors

/-!
# Scrawl.Proofs.Layered.Reflections — graphs that are drawn as each other's reflections

Two graphs that differ by a reflection are planned alike, since a plan looks at the ids and the
edges alone, and packed with their centres reflected.  The edges that pass ranks are then reflected
one by one.  An edge that passes none bows to the other side; but the one among its parallels that
has as many after it as this one has before it bows just so, and the drawings as a whole reflect
each other.

* `Mirrored`: graphs that differ by a reflection; the three cases are `mirrored_upDown`,
  `mirrored_leftRight` and `mirrored_diagonal`.
* `Drawn`, `exists_drawn`: what a layout draws before it is framed.
* `Drawn.reflects`: the drawings of such graphs.
-/

namespace Scrawl

/-! ### Graphs that differ by a reflection -/

/-- The graph with another direction. -/
def Graph.facing {α : Type} (g : Graph α) (d : Direction) : Graph α := { g with direction := d }

/-- The graph with widths and heights exchanged, those of the margins too. -/
def Graph.transposed {α : Type} (g : Graph α) : Graph α :=
  { g with
    nodes := g.nodes.map fun v => { v with width := v.height, height := v.width }
    marginX := g.marginY
    marginY := g.marginX }

namespace Layered

/-- `h` is asked to be drawn as `g` is, seen in a mirror. -/
structure Mirrored (m : Mirror) (g h : Graph ℝ) : Prop where
  ids : h.ids = g.ids
  edges : h.edges = g.edges
  sizes : h.nodes.map Node.size? = g.nodes.map fun v => v.size?.map m.size
  nodeGap : h.nodeGap = g.nodeGap
  rankGap : h.rankGap = g.rankGap
  margins : (h.marginX, h.marginY) = m.size (g.marginX, g.marginY)
  orient : ∀ a b, orient h.direction a b = m.point (orient g.direction a b)
  extent : ∀ s : ℝ × ℝ, extentOf h.direction (m.size s) = extentOf g.direction s

theorem mirrored_upDown (g : Graph ℝ) :
    Mirrored .upDown (g.facing .topBottom) (g.facing .bottomTop) where
  ids := rfl
  edges := rfl
  sizes := List.map_congr_left fun v _ => by cases v.size? <;> rfl
  nodeGap := rfl
  rankGap := rfl
  margins := rfl
  orient _ _ := rfl
  extent _ := rfl

theorem mirrored_leftRight (g : Graph ℝ) :
    Mirrored .leftRight (g.facing .leftRight) (g.facing .rightLeft) where
  ids := rfl
  edges := rfl
  sizes := List.map_congr_left fun v _ => by cases v.size? <;> rfl
  nodeGap := rfl
  rankGap := rfl
  margins := rfl
  orient _ _ := rfl
  extent _ := rfl

theorem mirrored_diagonal (g : Graph ℝ) :
    Mirrored .diagonal (g.facing .leftRight) (g.transposed.facing .topBottom) where
  ids := by simp [Graph.facing, Graph.transposed, Graph.ids]
  edges := rfl
  sizes := by
    simp only [Graph.facing, Graph.transposed, List.map_map]
    refine List.map_congr_left fun v _ => ?_
    cases hw : v.width <;> cases hh : v.height <;> simp [Node.size?, Mirror.size, hw, hh]
  nodeGap := rfl
  rankGap := rfl
  margins := rfl
  orient _ _ := rfl
  extent _ := rfl

/-! ### Graphs over numbered nodes -/

section Numbered

variable {n : ℕ}

/-- The numbers of the nodes of a graph with `n` nodes. -/
def numberBy {α : Type} (g : Graph α) (h : g.nodes.length = n) (id : String) : Option (Fin n) :=
  (g.number? id).map (Fin.cast h)

/-- The sizes of the nodes of a graph with `n` nodes. -/
def sizeBy {α : Type} [Scalar α] (g : Graph α) (h : g.nodes.length = n) (u : Fin n) : α × α :=
  sizeOrZero (g.nodes.get (u.cast h.symm))

/-- Where packing puts the stops of a graph. -/
noncomputable def seatBy (g : Graph ℝ) (size : Fin n → ℝ × ℝ) (arcs : List (Arc n))
    (t : Stop n) : Point ℝ :=
  ((pack ⟨g.direction, g.nodeGap, g.rankGap⟩ (Vector.ofFn size) (plan arcs).rows).lookup t).getD
    ⟨0, 0⟩

/-- A node's box around the point of its stop. -/
def placedBy (size : Fin n → ℝ × ℝ) (f : Stop n → Point ℝ) (u : Fin n) : Placed ℝ :=
  ⟨f (.node u), (size u).1, (size u).2⟩

namespace Mirrored

variable {m : Mirror} {g h : Graph ℝ} (hm : Mirrored m g h)
include hm

theorem joined (hj : g.Joined) : h.Joined := by
  rwa [Graph.Joined, hm.ids, hm.edges]

theorem nodes_length : h.nodes.length = g.nodes.length := by
  simpa using congrArg List.length hm.sizes

theorem sizeFault? (hs : g.sizeFault? = none) : h.sizeFault? = none := by
  refine Graph.sizeFault?_eq_none.mpr fun u hu => ?_
  obtain ⟨v, hv, hsize⟩ := List.mem_map.mp (hm.sizes ▸ List.mem_map_of_mem (f := Node.size?) hu)
  obtain ⟨s, hvs⟩ := Node.exists_size (Graph.sizeFault?_eq_none.mp hs v hv)
  rw [Node.isSized_iff, ← hsize, hvs]
  rfl

theorem numberBy_eq (hg : g.nodes.length = n) (hh : h.nodes.length = n) :
    numberBy h hh = numberBy g hg := by
  funext id
  rw [numberBy, numberBy, ← Graph.number?_of_ids hm.ids hm.nodes_length, Option.map_map]
  rfl

theorem sizeBy_eq (hs : g.sizeFault? = none) (hg : g.nodes.length = n) (hh : h.nodes.length = n)
    (u : Fin n) : sizeBy h hh u = m.size (sizeBy g hg u) := by
  have hgu : (u : ℕ) < g.nodes.length := hg ▸ u.isLt
  have hhu : (u : ℕ) < h.nodes.length := hh ▸ u.isLt
  have hsize := congrArg (·[(u : ℕ)]?) hm.sizes
  simp only [List.getElem?_map, List.getElem?_eq_getElem hgu, List.getElem?_eq_getElem hhu,
    Option.map_some, Option.some.injEq] at hsize
  obtain ⟨s, hvs⟩ := Node.exists_size (Graph.sizeFault?_eq_none.mp hs _ (List.getElem_mem hgu))
  rw [hvs] at hsize
  have hleft : sizeBy h hh u = m.size s := congrArg (Option.getD · (0.0, 0.0)) hsize
  have hright : sizeBy g hg u = s := congrArg (Option.getD · (0.0, 0.0)) hvs
  rw [hleft, hright]

theorem seatBy_eq {size size' : Fin n → ℝ × ℝ} (hsize : ∀ u, size' u = m.size (size u))
    (arcs : List (Arc n)) (t : Stop n) :
    seatBy h size' arcs t = m.point (seatBy g size arcs t) := by
  have hextent : Stop.extent h.direction (Vector.ofFn size') =
      Stop.extent g.direction (Vector.ofFn size) := by
    funext t
    cases t with
    | node u => simp [Stop.extent, get_eq_getElem, hsize, hm.extent]
    | via i r => rfl
  have hzero : m.point ⟨0, 0⟩ = ⟨0, 0⟩ := by cases m <;> simp [Mirror.point]
  have hpack : (pack ⟨h.direction, h.nodeGap, h.rankGap⟩ (Vector.ofFn size')
      (plan arcs).rows).lookup t = ((pack ⟨g.direction, g.nodeGap, g.rankGap⟩ (Vector.ofFn size)
        (plan arcs).rows).lookup t).map m.point :=
    lookup_pack_mirror m hm.nodeGap hm.rankGap hm.orient hextent _ t
  rw [seatBy, seatBy, hpack, ← hzero, Option.getD_map, hzero]

end Mirrored

/-- `P` is the graph `g` with its nodes at the points of their stops and its edges routed between
them. -/
structure Drawn (g P : Graph ℝ) (number? : String → Option (Fin n)) (size : Fin n → ℝ × ℝ)
    (arcs : List (Arc n)) (f : Stop n → Point ℝ) : Prop where
  nodes_length : P.nodes.length = n
  edges_length : P.edges.length = g.edges.length
  node : ∀ u : Fin n, ∃ v, P.nodes[(u : ℕ)]? = some v ∧ v.size? = some (size u) ∧
    v.center? = some (f (.node u))
  edge : ∀ i < g.edges.length, ∃ a ∈ arcs, a.edge = i
  route : ∀ a ∈ arcs, ∃ e, g.edges[a.edge]? = some e ∧ number? e.source = some a.source ∧
    number? e.target = some a.target ∧ P.edges[a.edge]? = some
      { e with
        points := routeThrough (placedBy size f a.source) (placedBy size f a.target)
          ((passed (plan arcs).ranks a).map fun r => f (.via a.edge r))
          (directMiddle g.nodeGap (shareOf (g.edges.take a.edge) g.edges e)
            (placedBy size f a.source) (placedBy size f a.target) (e.source ≤ e.target)) }

theorem drawn_placeAlong {g : Graph ℝ} {arcs : List (Arc g.nodes.length)} (hr : g.Represents arcs)
    (hloops : ∀ e ∈ g.edges, e.source ≠ e.target) (hs : g.sizeFault? = none)
    {f : Stop g.nodes.length → Point ℝ}
    (hf : ∀ t ∈ allStops (plan arcs).ranks (plan arcs).arcs,
      (pack ⟨g.direction, g.nodeGap, g.rankGap⟩ (Vector.ofFn fun u => sizeOrZero (g.nodes.get u))
        (plan arcs).rows).lookup t = some (f t)) :
    Drawn g (placeAlong g arcs) g.number? (fun u => sizeOrZero (g.nodes.get u)) arcs f where
  nodes_length := nodes_placeAlong_length g arcs
  edges_length := edges_placeAlong_length g arcs
  node u := by
    obtain ⟨size, hsize⟩ :=
      Node.exists_size (Graph.sizeFault?_eq_none.mp hs _ (List.get_mem g.nodes u))
    have hnode := placeAlong_node hf u
    refine ⟨_, hnode, ?_, rfl⟩
    rw [sizeOrZero, hsize]
    exact hsize
  edge i hi := by
    obtain ⟨a, haa, hedge, -⟩ := hr.exists_arc (List.getElem?_eq_getElem hi)
    exact ⟨a, haa, hedge⟩
  route a haa := by
    obtain ⟨e, he, hsource, htarget⟩ := hr.exists_edge haa
    have hne := Graph.number_ne hsource htarget (hloops e (List.mem_of_getElem? he))
    have hloop : a.isLoop = false := by simpa [Arc.isLoop] using hne
    obtain ⟨e', he', hroute⟩ := placeAlong_shared hr hf haa hloop
    obtain rfl := Option.some.inj (he.symm.trans he')
    exact ⟨e, he, hsource, htarget, hroute⟩

/-- A graph that can be laid out is drawn and framed. -/
theorem exists_drawn {g : Graph ℝ} (hlen : g.nodes.length = n) (hj : g.Joined)
    (hloops : ∀ e ∈ g.edges, e.source ≠ e.target) (hs : g.sizeFault? = none) :
    ∃ (arcs : List (Arc n)) (P : Graph ℝ), arcsBy (numberBy g hlen) g.edges = .ok arcs ∧
      layout g = .ok (frame P) ∧ P.cleared = g.cleared ∧
      Drawn g P (numberBy g hlen) (sizeBy g hlen) arcs (seatBy g (sizeBy g hlen) arcs) := by
  subst hlen
  obtain ⟨arcs, ha, hr⟩ := Graph.arcs_of_joined hj
  have hnumber : numberBy g rfl = g.number? := funext fun id => by simp [numberBy]
  have hsize : sizeBy g rfl = fun u => sizeOrZero (g.nodes.get u) := rfl
  have hl := layout_of_arcs ha
  refine ⟨arcs, placeAlong g arcs, ?_, hl, cleared_placeAlong g arcs, ?_⟩
  · rw [hnumber, ← arcs_eq_arcsBy, ha]
  · rw [hnumber, hsize]
    refine drawn_placeAlong hr hloops hs fun t ht => ?_
    rw [seatBy, lookup_centerOf hr t ht]
    rfl

/-! ### Two drawings -/

/-- `Q` shows what `P` does, seen in the mirror. -/
structure Reflects (m : Mirror) (P Q : Graph ℝ) : Prop where
  box : ∀ v ∈ P.nodes, ∀ b, v.box? = some b → ∃ w ∈ Q.nodes, w.box? = some (m.box b)
  point : ∀ e ∈ P.edges, ∀ p ∈ e.points, ∃ f ∈ Q.edges, m.point p ∈ f.points

/-- Every edge has an opposite one among those that join the same nodes. -/
theorem exists_opposite {α : Type} {es : List (Edge α)} {i : ℕ} {e : Edge α}
    (he : es[i]? = some e) : ∃ k count, k < count ∧ shareOf (es.take i) es e = ⟨k, count⟩ ∧
      ∃ j e', es[j]? = some e' ∧ joinsSame e e' ∧
        shareOf (es.take j) es e' = ⟨count - 1 - k, count⟩ := by
  obtain ⟨hi, hget⟩ := List.getElem?_eq_some_iff.mp he
  have hself : joinsSame e e := by simp [joinsSame]
  have hsplit : es.take i ++ e :: es.drop (i + 1) = es := by
    rw [← hget, ← List.drop_eq_getElem_cons hi, List.take_append_drop]
  have hcount := congrArg (List.countP (joinsSame e)) hsplit
  rw [List.countP_append, List.countP_cons_of_pos hself] at hcount
  refine ⟨_, _, ?_, rfl, ?_⟩
  · omega
  have hlt : es.countP (joinsSame e) - 1 - (es.take i).countP (joinsSame e) <
      (es.filter (joinsSame e)).length := by
    rw [← List.countP_eq_length_filter]
    omega
  obtain ⟨j, hj, hslot⟩ := exists_place (List.getElem?_eq_getElem hlt)
  have hjoins := (List.mem_filter.mp (List.getElem_mem hlt)).2
  refine ⟨j, _, hj, hjoins, ?_⟩
  rw [shareOf, joinsSame_congr (a := e.source) (b := e.target) hjoins]
  exact congrArg (Share.mk · _) hslot

theorem length_routeThrough (s t : Placed ℝ) {via : List (Point ℝ)} (h : via ≠ [])
    (direct : Point ℝ) : (routeThrough s t via direct).length = via.length + 2 := by
  obtain ⟨first, last, hpoints⟩ := routeThrough_of_ne_nil s t h direct
  simp [hpoints]

theorem passed_eq_nil {ranks : Vector ℕ n} {a b : Arc n} (h : passed ranks a = [])
    (hends : b.source = a.source ∧ b.target = a.target ∨
      b.source = a.target ∧ b.target = a.source) : passed ranks b = [] := by
  refine List.eq_nil_iff_forall_not_mem.mpr fun r hr => ?_
  have hnot := List.eq_nil_iff_forall_not_mem.mp h r
  rw [mem_passed] at hr hnot
  rcases hends with ⟨hs, ht⟩ | ⟨hs, ht⟩ <;> rw [hs, ht] at hr
  · exact hnot hr
  · exact hnot hr.symm

/-- The route over one point has the same points in both directions. -/
theorem mem_routeThrough_turned {s t : Placed ℝ} {p d : Point ℝ}
    (h : p ∈ routeThrough s t [] d) : p ∈ routeThrough t s [] d := by
  simp only [routeThrough, routeOver, List.mem_cons, List.nil_append, List.getLastD_cons,
    List.getLastD_nil] at h ⊢
  tauto

/-- What an edge that passes no rank shows, the opposite one shows in the mirror. -/
theorem mem_routeThrough_mirror (m : Mirror) {gap : ℝ} {k count : ℕ} (hk : k < count)
    {s t : Placed ℝ} {inOrder : Bool} {p : Point ℝ}
    (hp : p ∈ routeThrough s t [] (directMiddle gap ⟨k, count⟩ s t inOrder)) :
    m.point p ∈ routeThrough (m.placed s) (m.placed t) []
      (directMiddle gap ⟨count - 1 - k, count⟩ (m.placed s) (m.placed t) inOrder) := by
  have hback : count - 1 - (count - 1 - k) = k := by omega
  have hroute := routeThrough_mirror m s t [] (directMiddle gap ⟨k, count⟩ s t inOrder)
  rw [directMiddle_mirror m gap (by omega : count - 1 - k < count), hback]
  exact hroute ▸ List.mem_map_of_mem hp

section Twins

variable {m : Mirror} {g h P Q : Graph ℝ} {number? : String → Option (Fin n)}
  {size size' : Fin n → ℝ × ℝ} {arcs : List (Arc n)} {f f' : Stop n → Point ℝ}
  (hP : Drawn g P number? size arcs f) (hQ : Drawn h Q number? size' arcs f')
  (hsize : ∀ u, size' u = m.size (size u)) (hf : ∀ t, f' t = m.point (f t))

include hsize hf in
theorem placedBy_mirror (u : Fin n) : placedBy size' f' u = m.placed (placedBy size f u) := by
  rw [placedBy, hsize, hf]
  rfl

include hP hQ hsize hf

/-- The boxes of one drawing are seen in the other. -/
theorem Drawn.exists_box {v : Node ℝ} (hv : v ∈ P.nodes) {b : Box ℝ} (hb : v.box? = some b) :
    ∃ w ∈ Q.nodes, w.box? = some (m.box b) := by
  obtain ⟨i, hi, rfl⟩ := List.getElem_of_mem hv
  obtain ⟨v, hv, hvsize, hcenter⟩ := hP.node ⟨i, hP.nodes_length ▸ hi⟩
  obtain ⟨w, hw, hwsize, hcenter'⟩ := hQ.node ⟨i, hP.nodes_length ▸ hi⟩
  obtain rfl := Option.some.inj ((List.getElem?_eq_getElem hi).symm.trans hv)
  obtain ⟨x, y, c, hxy, hc, rfl⟩ := Node.box?_eq_some.mp hb
  refine ⟨w, List.mem_of_getElem? hw, ?_⟩
  rw [← Mirror.box_boxAt]
  refine Node.box?_eq_some.mpr ⟨_, _, _, ?_, ?_, rfl⟩
  · rw [hwsize, hsize, Option.some.inj (hvsize.symm.trans hxy)]
  · rw [hcenter', hf, Option.some.inj (hcenter.symm.trans hc)]

variable (hedges : h.edges = g.edges)
include hedges

/-- The edges that pass ranks are reflected one by one. -/
theorem Drawn.exists_route {a : Arc n} (ha : a ∈ arcs)
    (hpassed : passed (plan arcs).ranks a ≠ []) : ∃ e : Edge ℝ,
      e.points.length = (passed (plan arcs).ranks a).length + 2 ∧ P.edges[a.edge]? = some e ∧
      Q.edges[a.edge]? = some { e with points := e.points.map m.point } := by
  obtain ⟨e, he, -, -, hroute⟩ := hP.route a ha
  obtain ⟨e', he', -, -, hroute'⟩ := hQ.route a ha
  obtain rfl := Option.some.inj (he.symm.trans (hedges ▸ he'))
  have hvia : (passed (plan arcs).ranks a).map (fun r => f (.via a.edge r)) ≠ [] :=
    mt List.map_eq_nil_iff.mp hpassed
  have hvia' : (passed (plan arcs).ranks a).map (fun r => f' (.via a.edge r)) =
      ((passed (plan arcs).ranks a).map fun r => f (.via a.edge r)).map m.point := by
    simp only [List.map_map, Function.comp_def, hf]
  refine ⟨_, ?_, hroute, hroute'.trans ?_⟩
  · exact (length_routeThrough _ _ hvia _).trans (by rw [List.length_map])
  · rw [placedBy_mirror hsize hf, placedBy_mirror hsize hf, hvia', ← routeThrough_mirror]
    obtain ⟨p, ps, heq⟩ := List.exists_cons_of_ne_nil hvia
    simp only [heq, List.map_cons, routeThrough]

variable (hgap : h.nodeGap = g.nodeGap) (hloops : ∀ e ∈ g.edges, e.source ≠ e.target)
include hgap hloops

/-- What an edge that passes no rank shows, the opposite one among its parallels shows in the
mirror. -/
theorem Drawn.exists_opposite {a : Arc n} (ha : a ∈ arcs)
    (hpassed : passed (plan arcs).ranks a = []) {e : Edge ℝ} (he : P.edges[a.edge]? = some e) {p : Point ℝ} (hp : p ∈ e.points) :
    ∃ e' ∈ Q.edges, m.point p ∈ e'.points := by
  obtain ⟨d, hd, hs, ht, hroute⟩ := hP.route a ha
  obtain ⟨k, count, hk, hshare, j, d', hd', hjoins, hshare'⟩ := Layered.exists_opposite hd
  obtain ⟨b, hb, rfl⟩ := hQ.edge j (hedges ▸ (List.getElem?_eq_some_iff.mp hd').1)
  obtain ⟨e', he', hs', ht', hroute'⟩ := hQ.route b hb
  obtain rfl := Option.some.inj (hd'.symm.trans (hedges ▸ he'))
  rw [Option.some.inj (he.symm.trans hroute), hpassed, hshare] at hp
  have hmirror := mem_routeThrough_mirror m hk hp
  refine ⟨_, List.mem_of_getElem? hroute', ?_⟩
  rw [hedges, hgap, hshare', placedBy_mirror hsize hf, placedBy_mirror hsize hf]
  rcases joinsSame_iff.mp (hjoins : joinsSame ⟨d.source, d.target, []⟩ d') with
    ⟨hsource, htarget⟩ | ⟨hsource, htarget⟩
  · obtain hbs : b.source = a.source := Option.some.inj (hs'.symm.trans (hsource ▸ hs))
    obtain hbt : b.target = a.target := Option.some.inj (ht'.symm.trans (htarget ▸ ht))
    rw [passed_eq_nil hpassed (Or.inl ⟨hbs, hbt⟩), hbs, hbt, hsource, htarget]
    exact hmirror
  · -- the opposite edge leads back, and its route too
    obtain hbs : b.source = a.target := Option.some.inj (hs'.symm.trans (hsource ▸ ht))
    obtain hbt : b.target = a.source := Option.some.inj (ht'.symm.trans (htarget ▸ hs))
    rw [passed_eq_nil hpassed (Or.inr ⟨hbs, hbt⟩), hbs, hbt, hsource, htarget,
      inOrder_turned (hloops d (List.mem_of_getElem? hd)).symm, directMiddle_turned]
    exact mem_routeThrough_turned hmirror

/-- **Drawings of graphs that differ by a reflection reflect each other.** -/
theorem Drawn.reflects : Reflects m P Q where
  box _ hv _ hb := hP.exists_box hQ hsize hf hv hb
  point e he p hp := by
    obtain ⟨i, hi, rfl⟩ := List.getElem_of_mem he
    obtain ⟨a, ha, rfl⟩ := hP.edge i (hP.edges_length ▸ hi)
    by_cases hpassed : passed (plan arcs).ranks a = []
    · exact hP.exists_opposite hQ hsize hf hedges hgap hloops ha hpassed
        (List.getElem?_eq_getElem hi) hp
    · obtain ⟨e, -, hroute, hroute'⟩ := hP.exists_route hQ hsize hf hedges ha hpassed
      obtain rfl := Option.some.inj ((List.getElem?_eq_getElem hi).symm.trans hroute)
      exact ⟨_, List.mem_of_getElem? hroute', List.mem_map_of_mem hp⟩

end Twins

end Numbered

end Layered

end Scrawl
