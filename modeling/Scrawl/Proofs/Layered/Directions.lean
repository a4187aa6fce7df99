import Scrawl.Proofs.Layered.Reflections

/-!
# Scrawl.Proofs.Layered.Directions — one layout for the four directions

Against the screen a layout is that of the opposite direction, seen in a mirror inside its frame;
ranks that are columns are ranks that are rows, with the axes exchanged.  Framing keeps this: what
two drawings show differs by a reflection, so their extremes do, and their sizes and shifts too.

* `Bounds.mirror`: the bounding box of a reflected drawing.
* `layout_mirrored`: the layouts of one graph in the four directions.
-/

namespace Scrawl

/-- The reflection of a point inside a frame of the size. -/
def Mirror.within : Mirror → ℝ × ℝ → Point ℝ → Point ℝ
  | upDown, size, p => ⟨p.x, size.2 - p.y⟩
  | leftRight, size, p => ⟨size.1 - p.x, p.y⟩
  | diagonal, _, p => ⟨p.y, p.x⟩

namespace Layered

/-! ### Bounding boxes -/

section Reflects

variable {m : Mirror} {P Q : Graph ℝ}

theorem Reflects.mem_marks (h : Reflects m P Q) {sides sides' : Box ℝ → List ℝ}
    {c c' : Point ℝ → ℝ} {f : ℝ → ℝ} (hsides : ∀ b, ∀ a ∈ sides b, f a ∈ sides' (m.box b))
    (hc : ∀ p, f (c p) = c' (m.point p)) {a : ℝ} (ha : a ∈ P.marks sides c) :
    f a ∈ Q.marks sides' c' := by
  rcases ha with ⟨v, hv, b, hb, ha⟩ | ⟨e, he, p, hp, rfl⟩
  · obtain ⟨w, hw, hbox⟩ := h.box v hv b hb
    exact Or.inl ⟨w, hw, _, hbox, hsides b a ha⟩
  · obtain ⟨e', he', hpoint⟩ := h.point e he p hp
    exact Or.inr ⟨e', he', _, hpoint, hc p⟩

/-- The coordinates of a drawing are those of its reflection, negated or not. -/
theorem Reflects.marks_eq (h : Reflects m P Q) (h' : Reflects m Q P)
    {sides sides' : Box ℝ → List ℝ} {c c' : Point ℝ → ℝ} {f : ℝ → ℝ} (hf : Function.Involutive f)
    (hsides : ∀ b a, a ∈ sides b ↔ f a ∈ sides' (m.box b)) (hc : ∀ p, f (c p) = c' (m.point p)) :
    Q.marks sides' c' = f '' P.marks sides c := by
  refine Set.Subset.antisymm (fun a ha => ⟨f a, ?_, hf a⟩) ?_
  · refine h'.mem_marks (fun b a ha => (hsides _ _).mpr ?_) (fun p => ?_) ha
    · rwa [hf, Mirror.box_box]
    · have hback := hc (m.point p)
      rw [Mirror.point_point] at hback
      rw [← hback, hf]
  · rintro _ ⟨a, ha, rfl⟩
    exact h.mem_marks (fun b a ha => (hsides b a).mp ha) hc ha

/-- **The bounding box of a reflected drawing.** -/
theorem Bounds.mirror {b : Box ℝ} (hb : Bounds P b) (h : Reflects m P Q) (h' : Reflects m Q P) :
    Bounds Q (m.box b) := by
  have hid : Function.Involutive (id : ℝ → ℝ) := fun _ => rfl
  have hmono : Monotone (id : ℝ → ℝ) := monotone_id
  have hanti : Antitone (Neg.neg : ℝ → ℝ) := fun _ _ h => neg_le_neg h
  cases m with
  | upDown =>
    have hx : Q.marksX = id '' P.marksX :=
      h.marks_eq h' hid (fun b a => by simp [Mirror.box]) fun _ => rfl
    have hy : Q.marksY = Neg.neg '' P.marksY :=
      h.marks_eq h' neg_involutive (fun b a => by simp [Mirror.box, or_comm]) fun _ => rfl
    exact ⟨hx ▸ hmono.map_isLeast hb.left, hx ▸ hmono.map_isGreatest hb.right,
      hy ▸ hanti.map_isGreatest hb.bottom, hy ▸ hanti.map_isLeast hb.top⟩
  | leftRight =>
    have hx : Q.marksX = Neg.neg '' P.marksX :=
      h.marks_eq h' neg_involutive (fun b a => by simp [Mirror.box, or_comm]) fun _ => rfl
    have hy : Q.marksY = id '' P.marksY :=
      h.marks_eq h' hid (fun b a => by simp [Mirror.box]) fun _ => rfl
    exact ⟨hx ▸ hanti.map_isGreatest hb.right, hx ▸ hanti.map_isLeast hb.left,
      hy ▸ hmono.map_isLeast hb.top, hy ▸ hmono.map_isGreatest hb.bottom⟩
  | diagonal =>
    have hx : Q.marksX = id '' P.marksY :=
      h.marks_eq h' hid (fun b a => by simp [Mirror.box]) fun _ => rfl
    have hy : Q.marksY = id '' P.marksX :=
      h.marks_eq h' hid (fun b a => by simp [Mirror.box]) fun _ => rfl
    exact ⟨hx ▸ hmono.map_isLeast hb.top, hx ▸ hmono.map_isGreatest hb.bottom,
      hy ▸ hmono.map_isLeast hb.left, hy ▸ hmono.map_isGreatest hb.right⟩

end Reflects

/-! ### Frames -/

/-- **The frames of drawings that reflect each other**: they have the same size, but for the axes,
and what they hold reflects each other inside them. -/
theorem exists_frames {m : Mirror} {P Q : Graph ℝ} {b : Box ℝ} (hb : Bounds P b)
    (h : Reflects m P Q) (h' : Reflects m Q P)
    (hmargins : (Q.marginX, Q.marginY) = m.size (P.marginX, P.marginY)) :
    ∃ (v w : Point ℝ) (size : ℝ × ℝ),
      frame P = ({ P.shift v with width := some size.1, height := some size.2 }, size) ∧
      frame Q = ({ Q.shift w with width := some (m.size size).1, height := some (m.size size).2 },
        m.size size) ∧
      ∀ p, (m.point p).shift w = m.within size (p.shift v) := by
  have hb' := hb.mirror h h'
  obtain ⟨hx, hy⟩ := Prod.mk.inj (hmargins.trans (Prod.mk.eta (p := m.size _)).symm)
  have hroom : roomOf Q (m.box b) = m.size (roomOf P b) := by
    rw [roomOf, hx, hy]
    cases m <;> simp only [roomOf, Mirror.size, Mirror.box] <;> ring_nf
  refine ⟨_, ⟨Q.marginX - (m.box b).left, Q.marginY - (m.box b).top⟩, roomOf P b, hb.frame_eq, ?_,
    fun p => ?_⟩
  · rw [← hroom]
    exact hb'.frame_eq
  · rw [hx, hy]
    cases m <;> simp only [roomOf, Mirror.size, Mirror.box, Mirror.point, Mirror.within,
      Point.shift] <;>
      ring_nf

/-! ### Layouts -/

section Corresponds

variable {n : ℕ}

/-- `h'` shows the nodes, and the edges that pass ranks, where `image` takes the points at which
`g'` shows them. -/
structure Corresponds (arcs : List (Arc n)) (image : Point ℝ → Point ℝ) (g' h' : Graph ℝ) :
    Prop where
  node : ∀ u : Fin n, ∃ p, HasCenter g' u p ∧ HasCenter h' u (image p)
  edge : ∀ a ∈ arcs, passed (plan arcs).ranks a ≠ [] → ∃ e : Edge ℝ,
    e.points.length = (passed (plan arcs).ranks a).length + 2 ∧ g'.edges[a.edge]? = some e ∧
    h'.edges[a.edge]? = some { e with points := e.points.map image }

theorem hasCenter_shift {P : Graph ℝ} {u : ℕ} {p : Point ℝ} (hp : HasCenter P u p) (v : Point ℝ)
    (width height : Option ℝ) :
    HasCenter { P.shift v with width, height } u (p.shift v) := by
  obtain ⟨w, hw, hp⟩ := hp
  refine ⟨w.shift v, ?_, ?_⟩
  · simp [Graph.shift, hw]
  · rw [Node.center?_shift, hp, Option.map_some]

variable {m : Mirror} {g h P Q : Graph ℝ} {number? : String → Option (Fin n)}
  {size size' : Fin n → ℝ × ℝ} {arcs : List (Arc n)} {f f' : Stop n → Point ℝ}

theorem Drawn.exists_bounds (hP : Drawn g P number? size arcs f) (hn : 0 < n) :
    ∃ b, Bounds P b := by
  obtain ⟨v, hv, hsize, hcenter⟩ := hP.node ⟨0, hn⟩
  exact Layered.exists_bounds (List.mem_of_getElem? hv)
    (Node.box?_eq_some.mpr ⟨_, _, _, hsize, hcenter, rfl⟩)

theorem Drawn.frame_of_empty (hP : Drawn g P number? size arcs f) (hn : n = 0)
    (hedges : g.edges = []) : (frame P).2 = (2 * P.marginX, 2 * P.marginY) :=
  Layered.frame_of_empty (List.length_eq_zero_iff.mp (hP.nodes_length.trans hn))
    (List.length_eq_zero_iff.mp (hP.edges_length.trans (by rw [hedges, List.length_nil])))

theorem margins_of_cleared (h : P.cleared = g.cleared) :
    (P.marginX, P.marginY) = (g.marginX, g.marginY) :=
  Prod.ext (congrArg (·.marginX) h) (congrArg (·.marginY) h)

theorem Drawn.hasCenter (hP : Drawn g P number? size arcs f) (u : Fin n) :
    HasCenter P u (f (.node u)) := by
  obtain ⟨v, hv, -, hcenter⟩ := hP.node u
  exact ⟨v, hv, hcenter⟩

theorem Drawn.corresponds (hP : Drawn g P number? size arcs f)
    (hQ : Drawn h Q number? size' arcs f') (hsize : ∀ u, size' u = m.size (size u))
    (hf : ∀ t, f' t = m.point (f t)) (hedges : h.edges = g.edges) {v w : Point ℝ} {room : ℝ × ℝ}
    (hmove : ∀ p, (m.point p).shift w = m.within room (p.shift v)) (x y x' y' : Option ℝ) :
    Corresponds arcs (m.within room) { P.shift v with width := x, height := y }
      { Q.shift w with width := x', height := y' } where
  node u := by
    have hcenter := hasCenter_shift (hQ.hasCenter u) w x' y'
    rw [hf, hmove] at hcenter
    exact ⟨_, hasCenter_shift (hP.hasCenter u) v x y, hcenter⟩
  edge a ha hpassed := by
    obtain ⟨e, hlength, he, he'⟩ := hP.exists_route hQ hsize hf hedges ha hpassed
    refine ⟨e.shift v, by simpa [Edge.shift] using hlength, by simp [Graph.shift, he], ?_⟩
    simp only [Graph.shift, List.getElem?_map, he', Option.map_some, Edge.shift, List.map_map,
      Function.comp_def, hmove]

end Corresponds

/-- **Graphs that differ by a reflection have layouts that do**, seen inside their frames. -/
theorem exists_mirrored {m : Mirror} {g h : Graph ℝ} (hm : Mirrored m g h) (hj : g.Joined)
    (hloops : ∀ e ∈ g.edges, e.source ≠ e.target) (hs : g.sizeFault? = none) :
    ∃ (arcs : List (Arc g.nodes.length)) (g' h' : Graph ℝ) (size : ℝ × ℝ), g.arcs = .ok arcs ∧
      layout g = .ok (g', size) ∧ layout h = .ok (h', m.size size) ∧
      Corresponds arcs (m.within size) g' h' := by
  have hloops' : ∀ e ∈ h.edges, e.source ≠ e.target := hm.edges ▸ hloops
  obtain ⟨arcs, P, ha, hl, hcP, hP⟩ := exists_drawn rfl hj hloops hs
  obtain ⟨arcs', Q, ha', hl', hcQ, hQ⟩ :=
    exists_drawn hm.nodes_length (hm.joined hj) hloops' (hm.sizeFault? hs)
  rw [hm.numberBy_eq rfl] at ha' hQ
  rw [hm.edges] at ha'
  obtain rfl := Except.ok.inj (ha.symm.trans ha')
  have hsize := hm.sizeBy_eq hs rfl hm.nodes_length
  have hseat := hm.seatBy_eq hsize arcs
  generalize seatBy g (sizeBy g rfl) arcs = f at hP hseat
  generalize seatBy h (sizeBy h hm.nodes_length) arcs = f' at hQ hseat
  have hPQ := hP.reflects hQ hsize hseat hm.edges hm.nodeGap hloops
  have hQP := hQ.reflects (m := m) hP (fun u => by rw [hsize, Mirror.size_size])
    (fun t => by rw [hseat, Mirror.point_point]) hm.edges.symm hm.nodeGap.symm hloops'
  have hmargins : (Q.marginX, Q.marginY) = m.size (P.marginX, P.marginY) := by
    rw [margins_of_cleared hcP, margins_of_cleared hcQ, hm.margins]
  have hnumber : numberBy g rfl = g.number? := funext fun id => by simp [numberBy]
  rw [hnumber, ← arcs_eq_arcsBy] at ha
  by_cases hn : 0 < g.nodes.length
  · obtain ⟨b, hb⟩ := hP.exists_bounds hn
    obtain ⟨v, w, size, hframe, hframe', hmove⟩ := exists_frames hb hPQ hQP hmargins
    rw [hframe] at hl
    rw [hframe'] at hl'
    exact ⟨arcs, _, _, size, ha, hl, hl',
      hP.corresponds hQ hsize hseat hm.edges hmove _ _ _ _⟩
  · -- nothing is shown, and the sizes are those of the margins
    have hzero : g.nodes.length = 0 := Nat.eq_zero_of_not_pos hn
    have hnone : g.edges = [] := hj.edges_eq_nil (List.length_eq_zero_iff.mp hzero)
    have hframe := hP.frame_of_empty hzero hnone
    have hframe' : (frame Q).2 = m.size (frame P).2 := by
      obtain ⟨hx, hy⟩ := Prod.mk.inj (hmargins.trans (Prod.mk.eta (p := m.size _)).symm)
      rw [hframe, hQ.frame_of_empty hzero (hm.edges.trans hnone), hx, hy]
      cases m <;> rfl
    refine ⟨arcs, (frame P).1, (frame Q).1, (frame P).2, ha, hl, ?_, fun u => absurd u.pos hn,
      fun a => absurd a.source.pos hn⟩
    rw [← hframe']
    exact hl'

/-- The direction is not asked for the arcs. -/
theorem arcs_facing (g : Graph ℝ) (d : Direction) : (g.facing d).arcs = g.arcs := by
  rw [arcs_eq_arcsBy, arcs_eq_arcsBy]
  rfl

/-- **One layout for the four directions.**  For a graph whose edges join its nodes, without loops
and with a size for every node: against the screen the layout has the size of that of the opposite
direction, and shows the nodes, and the edges that pass ranks, where those are seen in a mirror
inside the frame.  With ranks as columns it has the size, and shows them at the points, of the
layout with ranks as rows of the transposed graph, the axes exchanged. -/
theorem layout_mirrored (g : Graph ℝ) (hj : g.Joined) (hloops : ∀ e ∈ g.edges, e.source ≠ e.target)
    (hs : g.sizeFault? = none) :
    ∃ arcs : List (Arc g.nodes.length), g.arcs = .ok arcs ∧
      (∃ (down up : Graph ℝ) (size : ℝ × ℝ), layout (g.facing .topBottom) = .ok (down, size) ∧
        layout (g.facing .bottomTop) = .ok (up, size) ∧
        Corresponds arcs (fun p => ⟨p.x, size.2 - p.y⟩) down up) ∧
      (∃ (right left : Graph ℝ) (size : ℝ × ℝ), layout (g.facing .leftRight) = .ok (right, size) ∧
        layout (g.facing .rightLeft) = .ok (left, size) ∧
        Corresponds arcs (fun p => ⟨size.1 - p.x, p.y⟩) right left) ∧
      ∃ (right down : Graph ℝ) (size : ℝ × ℝ), layout (g.facing .leftRight) = .ok (right, size) ∧
        layout (g.transposed.facing .topBottom) = .ok (down, (size.2, size.1)) ∧
        Corresponds arcs (fun p => ⟨p.y, p.x⟩) right down := by
  obtain ⟨arcs, down, up, size, ha, hdown, hup, hrows⟩ :=
    exists_mirrored (mirrored_upDown g) hj hloops hs
  obtain ⟨arcs', right, left, size', ha', hright, hleft, hcolumns⟩ :=
    exists_mirrored (mirrored_leftRight g) hj hloops hs
  obtain ⟨arcs'', right', down', size'', ha'', hright', hdown', hswapped⟩ :=
    exists_mirrored (mirrored_diagonal g) hj hloops hs
  rw [arcs_facing] at ha ha' ha''
  obtain rfl : arcs = arcs' := Except.ok.inj (ha.symm.trans ha')
  obtain rfl : arcs = arcs'' := Except.ok.inj (ha.symm.trans ha'')
  exact ⟨arcs, ha, ⟨down, up, size, hdown, hup, hrows⟩,
    ⟨right, left, size', hright, hleft, hcolumns⟩, right', down', size'', hright', hdown', hswapped⟩

/-- Three nodes in a row, with edges in both directions between the first two, and an edge from the
first to the last. -/
noncomputable def detour : Graph ℝ :=
  trio .topBottom [⟨"a", "b", []⟩, ⟨"b", "a", []⟩, ⟨"b", "c", []⟩, ⟨"a", "c", []⟩]

/-- The arcs of the four edges. -/
def detourArcs : List (Arc detour.nodes.length) :=
  let a : Fin detour.nodes.length := ⟨0, by decide⟩
  let b : Fin detour.nodes.length := ⟨1, by decide⟩
  let c : Fin detour.nodes.length := ⟨2, by decide⟩
  [⟨0, a, b⟩, ⟨1, b, a⟩, ⟨2, b, c⟩, ⟨3, a, c⟩]

/-- The edge that passes a rank is led over a point there, and from bottom to top over the mirrored
one. -/
theorem layout_mirrored_detour : detour.Joined ∧ (∀ e ∈ detour.edges, e.source ≠ e.target) ∧
    detour.sizeFault? = none ∧ ∃ (down up : Graph ℝ) (size : ℝ × ℝ),
      layout (detour.facing .topBottom) = .ok (down, size) ∧
      layout (detour.facing .bottomTop) = .ok (up, size) ∧
      ∃ first middle last : Point ℝ, down.edges[3]? = some ⟨"a", "c", [first, middle, last]⟩ ∧
        up.edges[3]? = some ⟨"a", "c", [⟨first.x, size.2 - first.y⟩, ⟨middle.x, size.2 - middle.y⟩,
          ⟨last.x, size.2 - last.y⟩]⟩ := by
  have hj : detour.Joined := by simp [Graph.Joined, Graph.ids, detour, trio]
  have hloops : ∀ e ∈ detour.edges, e.source ≠ e.target := by simp [detour, trio]
  have hs : detour.sizeFault? = none := rfl
  obtain ⟨arcs, ha, ⟨down, up, size, hdown, hup, hrows⟩, -⟩ := layout_mirrored detour hj hloops hs
  obtain rfl : detourArcs = arcs := Except.ok.inj ha
  obtain ⟨e, hlength, he, he'⟩ := hrows.edge ⟨3, ⟨0, by decide⟩, ⟨2, by decide⟩⟩
    (by decide) (by decide +kernel)
  have hcleared := congrArg (·.edges[3]?) (cleared_of_layout hdown)
  have hends : e.source = "a" ∧ e.target = "c" := by
    simpa [Graph.cleared, Graph.unrouted, Graph.facing, detour, trio, Edge.cleared, he]
      using hcleared
  obtain ⟨source, target, points⟩ := e
  obtain ⟨first, middle, last, rfl⟩ := List.length_eq_three.mp hlength
  obtain ⟨rfl, rfl⟩ := hends
  exact ⟨hj, hloops, hs, down, up, size, hdown, hup, first, middle, last, he, he'⟩

end Layered

end Scrawl
