import Scrawl.Proofs.Layered.Placement

/-!
# Scrawl.Proofs.Layered.Downstream — edges point along the direction

`Graph.Leads` is the relation of the edges between ids.

* `leads_of_joins`: a walk along the arcs is a walk along the edges.
* `rank_lt_of_no_cycle`: the rank rises along an edge that lies on no cycle, whatever other cycles
  there are, for only arcs on cycles are turned round.
* `layout_downstream`: such an edge ends strictly further along the direction than it starts.
-/

namespace Scrawl

open Relation

/-- Some edge leads from the one id to the other. -/
def Graph.Leads {α : Type} (g : Graph α) (s t : String) : Prop :=
  ∃ e ∈ g.edges, e.source = s ∧ e.target = t

/-- Whether the second point is strictly further in the direction than the first. -/
def Direction.Ahead : Direction → Point ℝ → Point ℝ → Prop
  | topBottom, p, q => p.y < q.y
  | bottomTop, p, q => q.y < p.y
  | leftRight, p, q => p.x < q.x
  | rightLeft, p, q => q.x < p.x
  | other _, _, _ => False

/-- Both ends of the edge have centres in `g`, that of its target ahead of that of its source. -/
def Graph.Downstream (g : Graph ℝ) (d : Direction) (e : Edge ℝ) : Prop :=
  ∃ s t p q, g.node? e.source = some s ∧ g.node? e.target = some t ∧ s.center? = some p ∧
    t.center? = some q ∧ d.Ahead p q

namespace Layered

theorem ahead_iff_along {d : Direction} (hd : d ∈ Direction.all) {p q : Point ℝ} :
    d.Ahead p q ↔ d.along p < d.along q := by
  rcases direction_cases hd with rfl | rfl | rfl | rfl <;>
    simp only [Direction.Ahead, Direction.along, neg_lt_neg_iff]

/-! ### Ranks along edges -/

section Cycles

variable {α : Type} {g : Graph α} {arcs : List (Arc g.nodes.length)} (hr : g.Represents arcs)
include hr

theorem leads_of_joins {u v : Fin g.nodes.length} (h : Joins arcs u v) :
    g.Leads (g.nodes.get u).id (g.nodes.get v).id := by
  obtain ⟨a, ha, rfl, rfl⟩ := h
  obtain ⟨e, he, hs, ht⟩ := hr.exists_edge ha
  exact ⟨e, List.mem_of_getElem? he, (Graph.id_of_number? hs).symm, (Graph.id_of_number? ht).symm⟩

/-- The rank rises along an edge that lies on no cycle. -/
theorem rank_lt_of_no_cycle {e : Edge α} {a : Arc g.nodes.length} (ha : a ∈ arcs)
    (hs : g.number? e.source = some a.source) (ht : g.number? e.target = some a.target)
    (hc : ¬ ReflTransGen g.Leads e.target e.source) :
    (plan arcs).ranks.get a.source < (plan arcs).ranks.get a.target := by
  rw [← Graph.id_of_number? hs, ← Graph.id_of_number? ht] at hc
  -- a walk along arcs from the target back to the source would be one along edges
  have hback : a.edge ∉ (plan arcs).back := fun hb =>
    hc ((cycle_of_back hr.nodup_edge ha hb).lift (fun v => (g.nodes.get v).id)
      fun _ _ => leads_of_joins hr)
  have hloop : a.isLoop = false := by
    by_contra hl
    have heq : a.source = a.target := by simpa [Arc.isLoop] using hl
    exact hc (heq ▸ .refl)
  have hm := mem_plan_arcs ha hloop
  rw [if_neg hback] at hm
  exact rank_lt_of_plan hr.nodup_edge hm

end Cycles

/-! ### Points along ranks -/

/-- A larger rank is strictly further along the direction. -/
theorem ahead_of_rank_lt {g : Graph ℝ} {arcs : List (Arc g.nodes.length)}
    {centers : List (Stop g.nodes.length × Point ℝ)} {x : Stop g.nodes.length → ℝ} {y : ℕ → ℝ}
    (hm : Measured g) (hd : g.direction ∈ Direction.all) (hk : 0 ≤ g.rankGap)
    (hs : Seating (plan arcs).ranks (plan arcs).arcs ⟨g.direction, g.nodeGap, g.rankGap⟩
      (stopExtent g) centers x y) (v : Point ℝ) {u w : Fin g.nodes.length}
    (hrank : (plan arcs).ranks.get u < (plan arcs).ranks.get w) :
    g.direction.Ahead (pointOf g.direction (plan arcs).ranks x y v (.node u))
      (pointOf g.direction (plan arcs).ranks x y v (.node w)) := by
  have h := hs.layered _ (mem_allStops_node u) _ (mem_allStops_node w) hrank
  have hu := (extent_pos hm u).2
  have hw := (extent_pos hm w).2
  rw [ahead_iff_along hd, pointOf, pointOf, along_shift_orient, along_shift_orient]
  simp only at h
  linarith

/-- **Edges point along the direction.**  For a graph whose edges join its nodes, with positive
sizes, gaps that are not negative and one of the four directions, the layout puts the target of
every edge that lies on no cycle ahead of its source; in a graph without cycles that is every
edge. -/
theorem layout_downstream (g : Graph ℝ) (hj : g.Joined) (hm : Measured g)
    (hd : g.direction ∈ Direction.all) (hn : 0 ≤ g.nodeGap) (hk : 0 ≤ g.rankGap) :
    ∃ g' size, layout g = .ok (g', size) ∧
      (∀ e ∈ g.edges, ¬ ReflTransGen g.Leads e.target e.source → g'.Downstream g.direction e) ∧
      ((∀ id, ¬ TransGen g.Leads id id) → ∀ e ∈ g.edges, g'.Downstream g.direction e) := by
  obtain ⟨arcs, g', size, centers, x, y, v, -, hr, hl, hs, hp⟩ := layout_seated g hj hm hn hk
  have hedge : ∀ e ∈ g.edges, ¬ ReflTransGen g.Leads e.target e.source →
      g'.Downstream g.direction e := fun e he hc => by
    obtain ⟨i, hi, hget⟩ := List.getElem_of_mem he
    obtain ⟨a, ha, -, hsrc, htgt⟩ := hr.exists_arc (List.getElem?_eq_some_iff.mpr ⟨hi, hget⟩)
    have hahead := ahead_of_rank_lt hm hd hk hs v (rank_lt_of_no_cycle hr ha hsrc htgt hc)
    exact ⟨_, _, _, _, (node?_of_number? hp.ids hsrc).trans (hp.node a.source),
      (node?_of_number? hp.ids htgt).trans (hp.node a.target), rfl, rfl, hahead⟩
  refine ⟨g', size, hl, hedge, fun hacyclic e he => hedge e he fun hback => ?_⟩
  exact hacyclic e.source (TransGen.head' ⟨e, he, rfl, rfl⟩ hback)

/-- A cycle of two nodes with an edge that leads on from it, laid out from bottom to top. -/
noncomputable def fork : Graph ℝ :=
  trio .bottomTop [⟨"b", "c", []⟩, ⟨"a", "b", []⟩, ⟨"b", "a", []⟩]

theorem layout_downstream_fork : fork.Joined ∧ Measured fork ∧ fork.direction ∈ Direction.all ∧
    0 ≤ fork.nodeGap ∧ 0 ≤ fork.rankGap ∧ ¬ ReflTransGen fork.Leads "c" "b" ∧
    ∃ g' size, layout fork = .ok (g', size) ∧ g'.Downstream .bottomTop ⟨"b", "c", []⟩ := by
  have hj : fork.Joined := by simp [Graph.Joined, Graph.ids, fork, trio]
  have hm : Measured fork := measured_trio _ _
  have hd : fork.direction ∈ Direction.all := by simp [fork, trio, Direction.all]
  have hn : 0 ≤ fork.nodeGap := by norm_num [fork, trio]
  have hk : 0 ≤ fork.rankGap := by norm_num [fork, trio]
  have hc : ¬ ReflTransGen fork.Leads "c" "b" := by
    rw [ReflTransGen.cases_head_iff]
    simp [Graph.Leads, fork, trio]
  obtain ⟨g', size, hl, hedge, -⟩ := layout_downstream fork hj hm hd hn hk
  exact ⟨hj, hm, hd, hn, hk, hc, g', size, hl, hedge _ List.mem_cons_self hc⟩

end Layered

end Scrawl
