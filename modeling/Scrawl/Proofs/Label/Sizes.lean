import Scrawl.Label.PlainFace
import Scrawl.Proofs.Layered.Completeness

/-!
# Scrawl.Proofs.Label.Sizes — what measuring gives, and why it may fail

* `graph_sized`: measuring gives every node of a graph a size, and changes no id, label or edge.
* `graph_fault`: it fails where a label has no size.
* `text_plain_fault`: with the plain face a label has a size unless it holds a character that cannot
  be drawn, or a number is out of range.
-/

namespace Scrawl

/-- The ids and labels of the nodes, in order. -/
def Graph.captions {α : Type} (g : Graph α) : List (String × String) :=
  g.nodes.map fun v => (v.id, v.label)

theorem Graph.ids_of_captions {α : Type} {g g' : Graph α} (h : g'.captions = g.captions) :
    g'.ids = g.ids := by
  have hids : ∀ g : Graph α, g.ids = g.captions.map (·.1) := fun g => by
    rw [captions, List.map_map]
    rfl
  rw [hids, hids, h]

namespace Label

section Measuring

variable {α : Type} [Scalar α] {m : Measurer α}

/-- A node gets the size of its label with padding, and the other nodes follow. -/
theorem nodes_cons (v : Node α) (l : List (Node α)) : (m.nodes (v :: l)).2 =
    (m.text v.label).2.bind fun size => (m.nodes l).2.map fun sized =>
      { v with
        width := some (size.1 + 2.0 * m.padding)
        height := some (size.2 + 2.0 * m.padding) } :: sized := by
  rw [Measurer.nodes, Measurer.node]
  cases m.text v.label with
  | mk events result => cases result <;> rfl

theorem nodes_sized {l l' : List (Node α)} (h : (m.nodes l).2 = .ok l') :
    (l'.map fun v => (v.id, v.label)) = (l.map fun v => (v.id, v.label)) ∧
      ∀ u ∈ l', u.isSized := by
  induction l generalizing l' with
  | nil =>
    cases h
    exact ⟨rfl, fun u hu => absurd hu List.not_mem_nil⟩
  | cons v l ih =>
    rw [nodes_cons] at h
    cases hv : (m.text v.label).2 with
    | error fault =>
      rw [hv] at h
      cases h
    | ok size =>
      cases hl : (m.nodes l).2 with
      | error fault =>
        rw [hv, hl] at h
        cases h
      | ok sized =>
        rw [hv, hl] at h
        cases h
        obtain ⟨hcaptions, hsized⟩ := ih hl
        refine ⟨by rw [List.map_cons, List.map_cons, hcaptions], fun u hu => ?_⟩
        rcases List.mem_cons.mp hu with rfl | hu
        · rfl
        · exact hsized u hu

theorem nodes_fault {l : List (Node α)} {fault : MeasureFault}
    (h : (m.nodes l).2 = .error fault) : ∃ v ∈ l, (m.text v.label).2 = .error fault := by
  induction l with
  | nil => cases h
  | cons v l ih =>
    rw [nodes_cons] at h
    cases hv : (m.text v.label).2 with
    | error f =>
      rw [hv] at h
      cases h
      exact ⟨v, List.mem_cons_self, hv⟩
    | ok size =>
      cases hl : (m.nodes l).2 with
      | error f =>
        rw [hv, hl] at h
        cases h
        obtain ⟨u, hu, hfault⟩ := ih hl
        exact ⟨u, List.mem_cons_of_mem _ hu, hfault⟩
      | ok sized =>
        rw [hv, hl] at h
        cases h

/-- Measuring gives every node a size, and leaves ids, labels and edges alone. -/
theorem graph_sized {g g' : Graph α} (h : (m.graph none g).2 = .ok g') :
    g'.captions = g.captions ∧ g'.edges = g.edges ∧ g'.sizeFault? = none := by
  have hgraph : (m.graph none g).2 = (m.nodes g.nodes).2.map _ := rfl
  cases hn : (m.nodes g.nodes).2 with
  | error fault =>
    rw [hgraph, hn] at h
    cases h
  | ok l =>
    rw [hgraph, hn] at h
    cases h
    obtain ⟨hcaptions, hsized⟩ := nodes_sized hn
    exact ⟨hcaptions, rfl, Graph.sizeFault?_eq_none.mpr hsized⟩

theorem graph_fault {g : Graph α} {fault : MeasureFault}
    (h : (m.graph none g).2 = .error fault) : ∃ v ∈ g.nodes, (m.text v.label).2 = .error fault := by
  have hgraph : (m.graph none g).2 = (m.nodes g.nodes).2.map _ := rfl
  cases hn : (m.nodes g.nodes).2 with
  | error f =>
    rw [hgraph, hn] at h
    cases h
    exact nodes_fault hn
  | ok l =>
    rw [hgraph, hn] at h
    cases h

end Measuring

/-! ### The plain face -/

section Plain

variable {α : Type} [Scalar α] {size : α}

theorem lineReply_failed {cs : List Char} {e : DeviceError}
    (h : lineReply size cs = .failed e) : e.fault = .system := by
  unfold lineReply at h
  split_ifs at h
  cases h
  rfl

theorem lineReplies_failed {lines : List (List Char)} {e : DeviceError}
    (h : lineReplies size lines = .error (.failed e)) : e.fault = .system := by
  induction lines with
  | nil => cases h
  | cons cs rest ih =>
    unfold lineReplies at h
    split at h
    · cases hr : lineReplies size rest with
      | error r =>
        rw [hr] at h
        cases h
        exact ih hr
      | ok boxes =>
        rw [hr] at h
        cases h
    · exact lineReply_failed (Except.error.inj h)

/-- The plain face fails in one way only. -/
theorem plainFace_failed {request : Request α} {e : DeviceError}
    (h : (plainFace size).reply request = .failed e) : e.fault = .system := by
  cases request with
  | line text => exact lineReply_failed h
  | block text spacing =>
    simp only [plainFace] at h
    split at h
    · cases h
    · next r hr =>
      subst h
      exact lineReplies_failed hr

/-- A label that the plain face does not measure holds what cannot be drawn, or a number is out of
range. -/
theorem text_plain_fault {m : Measurer α} {label : String} {fault : MeasureFault}
    (hface : (∃ f, m.face = .error (.number f)) ∨ ∃ size, m.face = .ok (plainFace size))
    (h : (m.text label).2 = .error fault) :
    (∃ f, fault = .number f) ∨ ∃ reason, fault = .unmeasurable label reason := by
  unfold Measurer.text at h
  rcases hface with ⟨f, hf⟩ | ⟨size, hsize⟩
  · rw [hf] at h
    cases h
    exact Or.inl ⟨f, rfl⟩
  · rw [hsize] at h
    dsimp only at h
    split at h
    · cases h
    · next f _ =>
      cases h
      exact Or.inl ⟨f, rfl⟩
    · next e he =>
      have hsystem := plainFace_failed he
      rw [if_pos (by rw [hsystem]; rfl)] at h
      cases h
      exact Or.inr ⟨e.text, rfl⟩

end Plain

end Label

end Scrawl
