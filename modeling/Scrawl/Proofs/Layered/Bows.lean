import Scrawl.Proofs.Layered.Independence
import Scrawl.Proofs.Layered.Routes

/-!
# Scrawl.Proofs.Layered.Bows — edges between the same two nodes

The edges that join two nodes of neighbouring ranks, in either direction, are counted in the order
of the graph.  Their middle points stand on the perpendicular through the point halfway between the
two centres, in that order, half a node gap from one to the next and symmetric about the line of
centres.  All of them are taken from one perpendicular, whatever the direction of the edge.

* `exists_normal`: the perpendicular of two centres.
* `layout_bows`: the routes between two nodes.
-/

namespace Scrawl

open Layered in
/-- The edges between two nodes, in either direction, in the order of the graph. -/
def Graph.between {α : Type} (g : Graph α) (a b : String) : List (Edge α) :=
  g.edges.filter (joinsSame ⟨a, b, []⟩)

namespace Layered

/-! ### Places in a selection -/

/-- A selected member has as many selected ones before it as its place among these says. -/
theorem exists_place {β : Type} {p : β → Bool} {x : β} : ∀ {l : List β} {k : ℕ},
    (l.filter p)[k]? = some x → ∃ i, l[i]? = some x ∧ (l.take i).countP p = k
  | [], k, h => by simp at h
  | y :: l, k, h => by
    by_cases hy : p y
    · rw [List.filter_cons_of_pos hy] at h
      cases k with
      | zero => exact ⟨0, by simpa using h, by simp⟩
      | succ k =>
        obtain ⟨i, hi, hcount⟩ := exists_place (by simpa using h)
        exact ⟨i + 1, by simpa using hi, by simp [hy, hcount]⟩
    · rw [List.filter_cons_of_neg hy] at h
      obtain ⟨i, hi, hcount⟩ := exists_place h
      exact ⟨i + 1, by simpa using hi, by simp [hy, hcount]⟩

section Joining

variable {α : Type} {a b : String} {e : Edge α}

theorem joinsSame_iff : joinsSame ⟨a, b, []⟩ e ↔
    e.source = a ∧ e.target = b ∨ e.source = b ∧ e.target = a := by
  simp only [joinsSame, Bool.or_eq_true, Bool.and_eq_true, beq_iff_eq]
  tauto

/-- Edges that join the same two nodes are joined with the same edges. -/
theorem joinsSame_congr (h : joinsSame ⟨a, b, []⟩ e) :
    (joinsSame e : Edge α → Bool) = joinsSame ⟨a, b, []⟩ := by
  funext f
  rw [Bool.eq_iff_iff]
  simp only [joinsSame, Bool.or_eq_true, Bool.and_eq_true, beq_iff_eq]
  rcases joinsSame_iff.mp h with ⟨rfl, rfl⟩ | ⟨rfl, rfl⟩
  · rfl
  · tauto

/-- Different names are in order in one of the two ways. -/
theorem inOrder_turned (h : a ≠ b) : decide (a ≤ b) = !decide (b ≤ a) := by
  rw [← decide_not, decide_eq_decide]
  exact ⟨fun hle hge => h (String.le_antisymm hle hge), (String.le_total _ _).resolve_right⟩

theorem countP_joinsSame_of_cleared {es es' : List (Edge α)}
    (h : es'.map Edge.cleared = es.map Edge.cleared) :
    es'.countP (joinsSame e) = es.countP (joinsSame e) := by
  have hcount : ∀ es : List (Edge α),
      (es.map Edge.cleared).countP (joinsSame e) = es.countP (joinsSame e) :=
    fun es => List.countP_map
  rw [← hcount, h, hcount]

theorem between_cleared {g g' : Graph α} (h : g'.cleared = g.cleared) :
    (g'.between a b).map Edge.cleared = (g.between a b).map Edge.cleared := by
  have hfilter : ∀ es : List (Edge α), (es.filter (joinsSame ⟨a, b, []⟩)).map Edge.cleared =
      (es.map Edge.cleared).filter (joinsSame ⟨a, b, []⟩) := fun es => by
    rw [List.filter_map]
    rfl
  rw [Graph.between, Graph.between, hfilter, hfilter]
  exact congrArg (List.filter _ ·.edges) h

end Joining

/-! ### Middle points on the perpendicular -/

theorem bend_eq (gap : ℝ) (k : ℕ) {n : ℕ} (hn : 0 < n) :
    bend gap k n = (k - ((n : ℝ) - 1) / 2) * (gap / 2) := by
  have htwo : (2.0 : ℝ) = 2 := by norm_num
  have hcast : ∀ i : ℕ, (Scalar.ofNat i : ℝ) = i := fun i => Int.cast_natCast i
  rw [bend, hcast, hcast, htwo, Nat.cast_pred hn]
  ring

/-- The middle point is the same for both directions, if they are in order the other way. -/
theorem directMiddle_turned (gap : ℝ) (share : Share) (s t : Placed ℝ) (inOrder : Bool) :
    directMiddle gap share t s (!inOrder) = directMiddle gap share s t inOrder := by
  unfold directMiddle
  rw [midpoint_comm]
  cases inOrder <;> rfl

/-- **The perpendicular of two points.**  Other points are moved aside along it. -/
theorem exists_normal {a b : Point ℝ} (hne : a ≠ b) :
    ∃ m : Point ℝ, m.x ^ 2 + m.y ^ 2 = 1 ∧ m.x * (b.x - a.x) + m.y * (b.y - a.y) = 0 ∧
      ∀ distance p, aside a b distance p = p.shift ⟨m.x * distance, m.y * distance⟩ := by
  set dx := b.x - a.x with hdx
  set dy := b.y - a.y with hdy
  have hmove : 0 < dx * dx + dy * dy := by
    rcases moves_of_ne hne.symm with hx | hy
    · exact add_pos_of_pos_of_nonneg (mul_self_pos.mpr hx) (mul_self_nonneg _)
    · exact add_pos_of_nonneg_of_pos (mul_self_nonneg _) (mul_self_pos.mpr hy)
  have hlength : Scalar.hypot dx dy = √(dx * dx + dy * dy) := rfl
  have hpos : 0 < √(dx * dx + dy * dy) := Real.sqrt_pos.mpr hmove
  have hzero : (√(dx * dx + dy * dy) == (0.0 : ℝ)) = false := by
    rw [beq_eq_false_iff_ne]
    norm_num [hpos.ne']
  refine ⟨⟨-dy / √(dx * dx + dy * dy), dx / √(dx * dx + dy * dy)⟩, ?_, ?_, fun distance p => ?_⟩
  · rw [div_pow, div_pow, Real.sq_sqrt hmove.le, ← add_div, div_eq_one_iff_eq hmove.ne']
    ring
  · ring
  · simp only [aside, Point.shift, ← hdx, ← hdy, hlength, hzero, Bool.false_eq_true, if_false,
      Point.mk.injEq]
    exact ⟨by ring, trivial⟩

/-- The middle point of an edge is as far along the perpendicular as the edge bends. -/
theorem exists_directMiddle {s t : Placed ℝ} (hne : s.center ≠ t.center) (inOrder : Bool) :
    ∃ m : Point ℝ, m.x ^ 2 + m.y ^ 2 = 1 ∧
      m.x * (t.center.x - s.center.x) + m.y * (t.center.y - s.center.y) = 0 ∧
      ∀ gap k n, k < n → directMiddle gap ⟨k, n⟩ s t inOrder =
        (midpoint s.center t.center).shift ⟨m.x * bend gap k n, m.y * bend gap k n⟩ := by
  obtain ⟨m, hunit, hnormal, haside⟩ : ∃ m : Point ℝ, m.x ^ 2 + m.y ^ 2 = 1 ∧
      m.x * (t.center.x - s.center.x) + m.y * (t.center.y - s.center.y) = 0 ∧
      ∀ distance p, (if inOrder then aside s.center t.center distance p
        else aside t.center s.center distance p) =
          p.shift ⟨m.x * distance, m.y * distance⟩ := by
    cases inOrder with
    | true => exact exists_normal hne
    | false =>
      obtain ⟨m, hunit, hnormal, haside⟩ := exists_normal hne.symm
      exact ⟨m, hunit, by linarith, haside⟩
  refine ⟨m, hunit, hnormal, fun gap k n hk => ?_⟩
  by_cases hn : 1 < n
  · exact (if_pos hn).trans (haside _ _)
  · -- a single edge does not bend
    obtain rfl : n = 1 := by omega
    obtain rfl : k = 0 := by omega
    rw [bend_eq gap 0 one_pos]
    simp [directMiddle, Point.shift]

/-- The points fan out from the line of two centres: they are on the perpendicular through the
point halfway between these, symmetric about it, and from one to the next it is one step. -/
structure FansOut (p q : Point ℝ) (step : ℝ) (n : ℕ) (middle : ℕ → Point ℝ) : Prop where
  perpendicular : ∀ k < n, ((middle k).x - (midpoint p q).x) * (q.x - p.x) +
    ((middle k).y - (midpoint p q).y) * (q.y - p.y) = 0
  symmetric : ∀ k < n, midpoint (middle k) (middle (n - 1 - k)) = midpoint p q
  spaced : ∀ k, k + 1 < n →
    √(((middle (k + 1)).x - (middle k).x) ^ 2 + ((middle (k + 1)).y - (middle k).y) ^ 2) = step

section FansOut

variable {gap : ℝ} {s t : Placed ℝ} (hne : s.center ≠ t.center) (inOrder : Bool) (n : ℕ)
include hne

/-- **The middle points of edges between two boxes fan out.** -/
theorem fansOut_directMiddle (hgap : 0 ≤ gap) : FansOut s.center t.center (gap / 2) n
    fun k => directMiddle gap ⟨k, n⟩ s t inOrder := by
  obtain ⟨m, hunit, hnormal, hmiddle⟩ := exists_directMiddle hne inOrder
  refine ⟨fun k hk => ?_, fun k hk => ?_, fun k hk => ?_⟩
  · rw [hmiddle gap k n hk]
    simp only [Point.shift, add_sub_cancel_left]
    linear_combination bend gap k n * hnormal
  · have hopposite : bend gap k n + bend gap (n - 1 - k) n = 0 := by
      rw [bend_eq gap k (by omega), bend_eq gap _ (by omega), Nat.cast_sub (by omega),
        Nat.cast_pred (by omega)]
      ring
    rw [hmiddle gap k n hk, hmiddle gap _ n (by omega)]
    simp only [midpoint_eq, Point.shift, Point.mk.injEq]
    exact ⟨by linear_combination m.x / 2 * hopposite, by linear_combination m.y / 2 * hopposite⟩
  · have hstep : bend gap (k + 1) n - bend gap k n = gap / 2 := by
      rw [bend_eq gap _ (by omega), bend_eq gap k (by omega), Nat.cast_succ]
      ring
    have hsquare : ((midpoint s.center t.center).x + m.x * bend gap (k + 1) n -
          ((midpoint s.center t.center).x + m.x * bend gap k n)) ^ 2 +
        ((midpoint s.center t.center).y + m.y * bend gap (k + 1) n -
          ((midpoint s.center t.center).y + m.y * bend gap k n)) ^ 2 = (gap / 2) ^ 2 := by
      rw [← hstep]
      linear_combination (bend gap (k + 1) n - bend gap k n) ^ 2 * hunit
    rw [hmiddle gap (k + 1) n hk, hmiddle gap k n (by omega)]
    simp only [Point.shift]
    rw [hsquare, Real.sqrt_sq (div_nonneg hgap zero_le_two)]

/-- With room between the nodes, no two of them are the same. -/
theorem directMiddle_injective (hgap : 0 < gap) {j k : ℕ} (hj : j < n) (hk : k < n)
    (h : directMiddle gap ⟨j, n⟩ s t inOrder = directMiddle gap ⟨k, n⟩ s t inOrder) : j = k := by
  obtain ⟨m, hunit, -, hmiddle⟩ := exists_directMiddle hne inOrder
  rw [hmiddle gap j n hj, hmiddle gap k n hk] at h
  simp only [Point.shift, Point.mk.injEq, add_right_inj] at h
  have hbend : bend gap j n = bend gap k n := by
    linear_combination m.x * h.1 + m.y * h.2 + (bend gap k n - bend gap j n) * hunit
  rw [bend_eq gap j (by omega), bend_eq gap k (by omega)] at hbend
  have hcast := mul_right_cancel₀ (half_pos hgap).ne' hbend
  exact_mod_cast sub_left_inj.mp hcast

end FansOut

/-! ### Layouts -/

section LaidOut

variable {g g' : Graph ℝ} {arcs : List (Arc g.nodes.length)} {point : Stop g.nodes.length → Point ℝ}
  (h : LaidOut g g' arcs point)
include h

/-- The `k`-th edge between two nodes of neighbouring ranks is routed over the `k`-th middle point,
taken from the first node to the second whatever the direction of the edge. -/
theorem LaidOut.getElem?_between (hcleared : g'.cleared = g.cleared) {a b : String}
    {u w : Fin g.nodes.length} (hu : g.number? a = some u) (hw : g.number? b = some w)
    (hnext : (plan arcs).ranks.get u + 1 = (plan arcs).ranks.get w ∨
      (plan arcs).ranks.get w + 1 = (plan arcs).ranks.get u)
    {k : ℕ} {e' : Edge ℝ} (hk : (g'.between a b)[k]? = some e') :
    ∃ first last, e'.points = [first, directMiddle g.nodeGap ⟨k, (g'.between a b).length⟩
      (placedAt g point u) (placedAt g point w) (a ≤ b), last] := by
  obtain ⟨i, hi, hslot⟩ := exists_place hk
  -- the edge of the graph that has this route
  have hedges : g'.edges.map Edge.cleared = g.edges.map Edge.cleared :=
    congrArg Graph.edges hcleared
  obtain ⟨e, he, hsame⟩ : ∃ e, g.edges[i]? = some e ∧ e.cleared = e'.cleared := by
    have hat := congrArg (·[i]?) hedges
    simp only [List.getElem?_map, hi, Option.map_some] at hat
    exact Option.map_eq_some_iff.mp hat.symm
  have hjoins : joinsSame ⟨a, b, []⟩ e := by
    have hjoins' := (List.mem_filter.mp (List.mem_of_getElem? hk)).2
    rw [← joinsSame_cleared, ← hsame, joinsSame_cleared] at hjoins'
    exact hjoins'
  have hshare : shareOf (g.edges.take i) g.edges e = ⟨k, (g'.between a b).length⟩ := by
    have htake : (g'.edges.take i).map Edge.cleared = (g.edges.take i).map Edge.cleared := by
      rw [List.map_take, List.map_take, hedges]
    rw [shareOf, joinsSame_congr hjoins, ← countP_joinsSame_of_cleared hedges,
      ← countP_joinsSame_of_cleared htake, hslot, List.countP_eq_length_filter]
    rfl
  obtain ⟨arc, harc, rfl, hsource, htarget⟩ := h.represents.exists_arc he
  have hturn : u ≠ w := fun heq => by rw [heq] at hnext; omega
  rcases joinsSame_iff.mp hjoins with ⟨rfl, rfl⟩ | ⟨rfl, rfl⟩
  · obtain rfl := Option.some.inj (hsource.symm.trans hu)
    obtain rfl := Option.some.inj (htarget.symm.trans hw)
    have hpassed : passed (plan arcs).ranks arc = [] :=
      List.eq_nil_iff_forall_not_mem.mpr fun r hr => by have := mem_passed.mp hr; omega
    obtain ⟨f, hf, hroute⟩ := h.route arc harc hturn
    obtain rfl := Option.some.inj (he.symm.trans hf)
    rw [Option.some.inj (hi.symm.trans hroute), hpassed, hshare]
    exact ⟨_, _, rfl⟩
  · obtain rfl := Option.some.inj (hsource.symm.trans hw)
    obtain rfl := Option.some.inj (htarget.symm.trans hu)
    have hpassed : passed (plan arcs).ranks arc = [] :=
      List.eq_nil_iff_forall_not_mem.mpr fun r hr => by have := mem_passed.mp hr; omega
    obtain ⟨f, hf, hroute⟩ := h.route arc harc hturn.symm
    obtain rfl := Option.some.inj (he.symm.trans hf)
    have hends : e.source ≠ e.target := fun heq =>
      hturn (Option.some.inj (htarget.symm.trans (heq ▸ hsource)))
    rw [Option.some.inj (hi.symm.trans hroute), hpassed, hshare, inOrder_turned hends,
      directMiddle_turned]
    exact ⟨_, _, rfl⟩

end LaidOut

/-- **Edges between two nodes of neighbouring ranks bow apart.**  For a graph whose edges join its
nodes, with positive sizes and gaps that are not negative: the edges between two nodes of
neighbouring ranks, in whichever directions, are routed over one middle point each.  These points
are on the perpendicular through the point halfway between the two centres and symmetric about it,
and from each to the next it is half a node gap.  So if there is a node gap, no two of the edges
have the same route. -/
theorem layout_bows (g : Graph ℝ) (hj : g.Joined) (hm : Measured g) (hn : 0 ≤ g.nodeGap)
    (hk : 0 ≤ g.rankGap) :
    ∃ (arcs : List (Arc g.nodes.length)) (g' : Graph ℝ) (size : ℝ × ℝ),
      g.arcs = .ok arcs ∧ layout g = .ok (g', size) ∧
      ∀ (a b : String) (u w : Fin g.nodes.length),
        g.number? a = some u → g.number? b = some w →
        ((plan arcs).ranks.get u + 1 = (plan arcs).ranks.get w ∨
          (plan arcs).ranks.get w + 1 = (plan arcs).ranks.get u) →
        (g'.between a b).map Edge.cleared = (g.between a b).map Edge.cleared ∧
        ∃ (p q : Point ℝ) (middle : ℕ → Point ℝ), HasCenter g' u p ∧ HasCenter g' w q ∧ p ≠ q ∧
          (∀ k e, (g'.between a b)[k]? = some e →
            ∃ first last, e.points = [first, middle k, last]) ∧
          FansOut p q (g.nodeGap / 2) (g'.between a b).length middle ∧
          (0 < g.nodeGap → ((g'.between a b).map (·.points)).Nodup) := by
  obtain ⟨arcs, g', size, point, ha, hl, h⟩ := layout_laidOut g hj hm hn hk
  have hcleared := cleared_of_layout hl
  refine ⟨arcs, g', size, ha, hl, fun a b u w hu hw hnext => ⟨between_cleared hcleared, ?_⟩⟩
  have hcenters : (placedAt g point u).center ≠ (placedAt g point w).center :=
    h.point_ne hm hk w (mem_allStops_node u) (show (plan arcs).ranks.get u ≠ _ by omega)
  have hroute := fun k e (hk : (g'.between a b)[k]? = some e) =>
    h.getElem?_between hcleared hu hw hnext hk
  refine ⟨_, _, _, h.hasCenter u, h.hasCenter w, hcenters, hroute,
    fansOut_directMiddle hcenters _ _ hn, fun hgap => ?_⟩
  rw [List.Nodup, List.pairwise_map, List.pairwise_iff_getElem]
  intro j k hj hk hlt hpoints
  obtain ⟨_, _, hmiddleJ⟩ := hroute j _ (List.getElem?_eq_getElem hj)
  obtain ⟨_, _, hmiddleK⟩ := hroute k _ (List.getElem?_eq_getElem hk)
  rw [hmiddleJ, hmiddleK, List.cons.injEq, List.cons.injEq] at hpoints
  exact hlt.ne (directMiddle_injective hcenters _ _ hgap hj hk hpoints.2.1)

/-- Two nodes with edges in both directions. -/
noncomputable def braid : Graph ℝ :=
  sized [("a", 40, 20), ("b", 40, 20)] [⟨"a", "b", []⟩, ⟨"b", "a", []⟩, ⟨"a", "b", []⟩]

/-- The arcs of the three edges. -/
def braidArcs : List (Arc braid.nodes.length) :=
  let a : Fin braid.nodes.length := ⟨0, by decide⟩
  let b : Fin braid.nodes.length := ⟨1, by decide⟩
  [⟨0, a, b⟩, ⟨1, b, a⟩, ⟨2, a, b⟩]

/-- The three edges have three different routes. -/
theorem layout_bows_braid : braid.Joined ∧ Measured braid ∧ 0 ≤ braid.nodeGap ∧
    0 ≤ braid.rankGap ∧ ∃ g' size, layout braid = .ok (g', size) ∧
      (g'.between "a" "b").length = 3 ∧ ((g'.between "a" "b").map (·.points)).Nodup := by
  have hj : braid.Joined := by simp [Graph.Joined, Graph.ids, braid, sized]
  have hm : Measured braid := measured_sized _ (by decide)
  have hn : 0 < braid.nodeGap := by norm_num [braid, sized]
  have hk : 0 ≤ braid.rankGap := by norm_num [braid, sized]
  refine ⟨hj, hm, hn.le, hk, ?_⟩
  obtain ⟨arcs, g', size, ha, hl, hbows⟩ := layout_bows braid hj hm hn.le hk
  obtain rfl : braidArcs = arcs := Except.ok.inj ha
  obtain ⟨hsame, p, q, middle, -, -, -, -, -, hapart⟩ := hbows "a" "b" ⟨0, by decide⟩
    ⟨1, by decide⟩ rfl rfl (Or.inl (by decide +kernel))
  have hlength := congrArg List.length hsame
  rw [List.length_map, List.length_map] at hlength
  exact ⟨g', size, hl, hlength, hapart hn⟩

end Layered

end Scrawl
