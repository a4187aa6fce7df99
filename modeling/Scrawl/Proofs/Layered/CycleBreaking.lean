import Scrawl.Layered.Layout
import Scrawl.Proofs.Layered.Arcs
import Scrawl.Proofs.Layered.Search
import Scrawl.Proofs.Layered.Topological

/-!
# Scrawl.Proofs.Layered.CycleBreaking — turning arcs leaves no cycle

The order in which the search closes nodes, read backward, is a list in which every arc leads
forward once those in `backEdges` are turned round: an arc followed leads forward unless it was
found to lead to an open node, and open nodes close after the nodes above them.

* `turned_forward`: that list.
* `cycle_of_back`: an arc is turned only if it lies on a cycle.
* `plan_topological`: for every graph whose edges join its nodes, the arcs that are ranked have no
  cycle, and all nodes are listed once with these arcs leading forward.
-/

namespace Scrawl.Layered

open Relation

variable {n : ℕ} {arcs : List (Arc n)}

theorem turnArcs_eq (back : List ℕ) (arcs : List (Arc n)) :
    turnArcs back arcs =
      (arcs.filter (!·.isLoop)).map fun a => if a.edge ∈ back then a.turned else a := by
  simp [turnArcs]

/-- The arcs without loops, those in `back` turned round, are forward in some list of all nodes. -/
theorem turned_forward (hd : (arcs.map (·.edge)).Nodup) :
    ∃ l : List (Fin n), l.Nodup ∧ Forward l (turnArcs (backEdges arcs) arcs) := by
  obtain ⟨s, hi, hr, hs, hb⟩ := Search.search_finished hd
  -- no root is left, so every node has been seen, and no arc waits any more
  have hall : ∀ v, v ∈ s.order := fun v =>
    (hi.covered v).resolve_left (by rw [hr]; exact List.not_mem_nil)
  refine ⟨s.order, hi.nodup, fun b hb' => ?_⟩
  rw [hb, turnArcs_eq] at hb'
  obtain ⟨a, ha, rfl⟩ := List.mem_map.mp hb'
  obtain ⟨ha, hloop⟩ := List.mem_filter.mp ha
  split_ifs with he
  · exact (hi.backward a ha he).resolve_left (by simpa using hloop)
  · rcases hi.settled a ha (hall _) with ⟨f, hf, -⟩ | hs'
    · rw [hs] at hf
      exact absurd hf List.not_mem_nil
    · exact hs'.resolve_left he

/-- **Turning arcs leaves no cycle.** -/
theorem acyclic_turned (hd : (arcs.map (·.edge)).Nodup) :
    Acyclic (turnArcs (backEdges arcs) arcs) := by
  obtain ⟨l, hl, hf⟩ := turned_forward hd
  exact acyclic_of_forward hl hf

/-- Only an arc on a cycle is turned round. -/
theorem cycle_of_back (hd : (arcs.map (·.edge)).Nodup) {a : Arc n} (ha : a ∈ arcs)
    (hb : a.edge ∈ backEdges arcs) : ReflTransGen (Joins arcs) a.target a.source := by
  obtain ⟨s, hi, -, -, hs⟩ := Search.search_finished hd
  exact hi.cyclic a ha (hs ▸ hb)

/-- **Every graph is made acyclic.**  For a graph whose edges join its nodes, the arcs that are
ranked — one for each edge that is no loop, turned round if its number is in `back` — have no cycle,
and the nodes are listed each once with every such arc leading from an earlier to a later one. -/
theorem plan_topological {α : Type} (g : Graph α) (h : g.Joined) :
    ∃ arcs, g.arcs = .ok arcs ∧ g.Represents arcs ∧
      (plan arcs).arcs = (arcs.filter (!·.isLoop)).map
        (fun a => if a.edge ∈ (plan arcs).back then a.turned else a) ∧
      Acyclic (plan arcs).arcs ∧
      (topological (plan arcs).arcs).Nodup ∧ (∀ v, v ∈ topological (plan arcs).arcs) ∧
      Forward (topological (plan arcs).arcs) (plan arcs).arcs := by
  obtain ⟨arcs, ha, hr⟩ := Graph.arcs_of_joined h
  have hac : Acyclic (plan arcs).arcs := acyclic_turned hr.nodup_edge
  exact ⟨arcs, ha, hr, turnArcs_eq _ arcs, hac, topological_complete hac⟩

/-- Three nodes with two interlocking cycles, a loop and parallel edges. -/
def knot : Graph ℕ :=
  { nodes := ["a", "b", "c"].map fun id => { id, label := id }
    edges := [⟨"a", "b", []⟩, ⟨"b", "a", []⟩, ⟨"b", "c", []⟩, ⟨"c", "a", []⟩, ⟨"a", "a", []⟩,
      ⟨"a", "b", []⟩]
    marginX := 0, marginY := 0, nodeGap := 0, rankGap := 0 }

theorem plan_topological_knot : knot.Joined ∧ ∃ arcs, knot.arcs = .ok arcs ∧ arcs.length = 6 ∧
    Acyclic (plan arcs).arcs ∧ Forward (topological (plan arcs).arcs) (plan arcs).arcs := by
  have hj : knot.Joined := by simp [Graph.Joined, Graph.ids, knot]
  obtain ⟨arcs, ha, hr, -, hac, -, -, hf⟩ := plan_topological knot hj
  exact ⟨hj, arcs, ha, hr.length_eq, hac, hf⟩

end Scrawl.Layered
