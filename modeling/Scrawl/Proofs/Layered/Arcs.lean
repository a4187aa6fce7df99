import Mathlib.Data.List.Forall2
import Scrawl.Layered.Arcs

/-!
# Scrawl.Proofs.Layered.Arcs — the arcs of a graph stand for its edges

A graph whose edges join its nodes has one arc for each edge, with the number of that edge and the
numbers of its ends.  A graph is not asked to have different ids: an id always means the first node
that has it.
-/

namespace Scrawl.Graph

variable {α : Type}

/-- Both ends of every edge are nodes. -/
def Joined (g : Graph α) : Prop := ∀ e ∈ g.edges, e.source ∈ g.ids ∧ e.target ∈ g.ids

/-- The arc stands for the numbered edge. -/
def IsArcOf (g : Graph α) (p : ℕ × Edge α) (a : Arc g.nodes.length) : Prop :=
  a.edge = p.1 ∧ g.number? p.2.source = some a.source ∧ g.number? p.2.target = some a.target

/-- One arc stands for each edge, in order. -/
def Represents (g : Graph α) (arcs : List (Arc g.nodes.length)) : Prop :=
  List.Forall₂ g.IsArcOf ((List.range g.edges.length).zip g.edges) arcs

variable {g : Graph α}

/-! ### Numbers of nodes -/

theorem number?_isSome {id : String} : (g.number? id).isSome ↔ id ∈ g.ids := by
  simp [number?, ids]

theorem id_of_number? {id : String} {v : Fin g.nodes.length} (h : g.number? id = some v) :
    (g.nodes.get v).id = id := by
  have hv := (List.findFinIdx?_eq_some_iff.mp h).1
  simpa using hv

theorem number_ne {id id' : String} {v w : Fin g.nodes.length} (hv : g.number? id = some v)
    (hw : g.number? id' = some w) (h : id ≠ id') : v ≠ w := fun heq =>
  h (by rw [← id_of_number? hv, ← id_of_number? hw, heq])

theorem exists_number {id : String} (h : id ∈ g.ids) : ∃ v, g.number? id = some v :=
  Option.isSome_iff_exists.mp (number?_isSome.mpr h)

/-- Without nodes there are no edges. -/
theorem Joined.edges_eq_nil (h : g.Joined) (hn : g.nodes = []) : g.edges = [] :=
  List.eq_nil_iff_forall_not_mem.mpr fun e he => by
    have hid := (h e he).1
    rw [ids, hn, List.map_nil] at hid
    exact List.not_mem_nil hid

/-- Graphs with the same ids number their nodes alike. -/
theorem number?_of_ids {h : Graph α} (hids : h.ids = g.ids)
    (hlen : h.nodes.length = g.nodes.length) (id : String) :
    (h.number? id).map (Fin.cast hlen) = g.number? id := by
  cases hn : g.number? id with
  | none =>
    have hid : id ∉ h.ids := by
      rw [hids, ← number?_isSome, hn]
      exact Bool.false_ne_true
    rw [Option.map_eq_none_iff, ← Option.not_isSome_iff_eq_none, number?_isSome]
    exact hid
  | some v =>
    obtain ⟨hv, hfirst⟩ := List.findFinIdx?_eq_some_iff.mp hn
    refine Option.map_eq_some_iff.mpr ⟨v.cast hlen.symm, ?_, rfl⟩
    have hid : ∀ j, (h.nodes.get j).id = (g.nodes.get (j.cast hlen)).id := fun j => by
      simpa [ids] using List.getElem_of_eq hids (i := j) (by simp [ids])
    refine List.findFinIdx?_eq_some_iff.mpr ⟨(congrArg (· == id) (hid _)).trans hv, fun j hj => ?_⟩
    exact (congrArg (· == id) (hid j)).trans_ne (hfirst (j.cast hlen) hj)

/-! ### Arcs of edges -/

theorem arcsOf_ok : ∀ (edges : List (ℕ × Edge α)),
    (∀ p ∈ edges, p.2.source ∈ g.ids ∧ p.2.target ∈ g.ids) →
    ∃ arcs, g.arcsOf edges = .ok arcs ∧ List.Forall₂ g.IsArcOf edges arcs
  | [], _ => ⟨[], rfl, .nil⟩
  | (i, e) :: edges, h => by
    obtain ⟨hs, ht⟩ := h (i, e) List.mem_cons_self
    obtain ⟨s, hs⟩ := exists_number hs
    obtain ⟨t, ht⟩ := exists_number ht
    obtain ⟨arcs, ha, hf⟩ := arcsOf_ok edges fun p hp => h p (List.mem_cons_of_mem _ hp)
    refine ⟨⟨i, s, t⟩ :: arcs, ?_, .cons ⟨rfl, hs, ht⟩ hf⟩
    unfold arcsOf at ha ⊢
    simp only [List.mapM_cons, ha, hs, ht]
    rfl

/-- **A graph whose edges join its nodes has arcs**, one for each edge. -/
theorem arcs_of_joined (h : g.Joined) : ∃ arcs, g.arcs = .ok arcs ∧ g.Represents arcs :=
  arcsOf_ok _ fun _ hp => h _ (List.of_mem_zip hp).2

/-- Only a graph whose edges join its nodes has arcs. -/
theorem joined_of_arcsOf : ∀ (edges : List (ℕ × Edge α)) {arcs : List (Arc g.nodes.length)},
    g.arcsOf edges = .ok arcs → ∀ p ∈ edges, p.2.source ∈ g.ids ∧ p.2.target ∈ g.ids
  | [], _, _ => by simp
  | (i, e) :: edges, arcs, h => by
    unfold arcsOf at h
    rw [List.mapM_cons] at h
    dsimp only at h
    cases hs : g.number? e.source with
    | none => simp only [hs] at h; cases h
    | some s =>
      cases ht : g.number? e.target with
      | none => simp only [hs, ht] at h; cases h
      | some t =>
        have hends : e.source ∈ g.ids ∧ e.target ∈ g.ids :=
          ⟨number?_isSome.mp (by rw [hs]; rfl), number?_isSome.mp (by rw [ht]; rfl)⟩
        cases hrest : g.arcsOf edges with
        | error id =>
          unfold arcsOf at hrest
          simp only [hs, ht, hrest] at h
          cases h
        | ok rest => exact List.forall_mem_cons.mpr ⟨hends, joined_of_arcsOf edges hrest⟩

theorem joined_of_arcs {arcs : List (Arc g.nodes.length)} (h : g.arcs = .ok arcs) : g.Joined := by
  intro e he
  obtain ⟨i, hi, rfl⟩ := List.getElem_of_mem he
  refine joined_of_arcsOf _ h (i, g.edges[i]) (List.mem_iff_getElem.mpr ⟨i, by simpa using hi, ?_⟩)
  simp

namespace Represents

variable {arcs : List (Arc g.nodes.length)} (h : g.Represents arcs)
include h

theorem length_eq : arcs.length = g.edges.length := by
  have := List.Forall₂.length_eq h
  simpa using this.symm

theorem isArcOf (i : ℕ) (hi : i < g.edges.length) (ha : i < arcs.length) :
    g.IsArcOf (i, g.edges[i]) arcs[i] := by
  have := List.Forall₂.get h (i := i) (by simpa using hi) ha
  simpa using this

theorem map_edge : arcs.map (·.edge) = List.range g.edges.length := by
  refine List.ext_getElem (by simp [h.length_eq]) fun i hi hi' => ?_
  rw [List.getElem_map, List.getElem_range]
  rw [List.length_range] at hi'
  exact (h.isArcOf i hi' (h.length_eq.symm ▸ hi')).1

theorem nodup_edge : (arcs.map (·.edge)).Nodup := h.map_edge ▸ List.nodup_range

theorem exists_edge {a : Arc g.nodes.length} (ha : a ∈ arcs) :
    ∃ e, g.edges[a.edge]? = some e ∧ g.number? e.source = some a.source ∧
      g.number? e.target = some a.target := by
  obtain ⟨i, hi, rfl⟩ := List.getElem_of_mem ha
  have hi' : i < g.edges.length := h.length_eq ▸ hi
  obtain ⟨he, hs, ht⟩ := h.isArcOf i hi' hi
  exact ⟨g.edges[i], by rw [he, List.getElem?_eq_getElem hi'], hs, ht⟩

theorem exists_arc {i : ℕ} {e : Edge α} (he : g.edges[i]? = some e) :
    ∃ a ∈ arcs, a.edge = i ∧ g.number? e.source = some a.source ∧
      g.number? e.target = some a.target := by
  obtain ⟨hi, rfl⟩ := List.getElem?_eq_some_iff.mp he
  have ha : i < arcs.length := h.length_eq.symm ▸ hi
  obtain ⟨he, hs, ht⟩ := h.isArcOf i hi ha
  exact ⟨arcs[i], List.getElem_mem ha, he, hs, ht⟩

end Represents

end Scrawl.Graph
