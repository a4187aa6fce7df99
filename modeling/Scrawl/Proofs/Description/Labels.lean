import Mathlib.Data.List.TakeWhile
import Scrawl.Proofs.Description.Drafts

/-!
# Scrawl.Proofs.Description.Labels — the labels that statements give

A node is labelled by the last label that a node statement gives it; else by the default label in
force where it is mentioned first; else by its id (`labelIn`).  The statements are looked at as a
whole here, while a draft takes them one at a time.

* `labelIn_concat_of_mem`, `labelIn_concat_of_not_mem`: what one more statement does to the label of
  an id that has been mentioned, and of one that has not.
* `labelledBy_chain`, `labelledBy_node`: what the two statements that make nodes do to the labels.
* `Labelled.act`, `actFrom_labelled`: the nodes of a draft are labelled so, whatever its statements.
-/

namespace Scrawl

/-! ### Labels of a graph -/

namespace Graph

variable {α : Type} {g : Graph α} {f f' : String → String}

/-- Every node has the label that `f` gives its id. -/
def LabelledBy (g : Graph α) (f : String → String) : Prop := ∀ u ∈ g.nodes, u.label = f u.id

theorem LabelledBy.congr (h : g.LabelledBy f) (hf : ∀ v ∈ g.ids, f v = f' v) : g.LabelledBy f' :=
  fun u hu => (h u hu).trans (hf u.id (List.mem_map_of_mem hu))

/-- A label for one id goes before those of `f`. -/
theorem LabelledBy.updateNode (h : g.LabelledBy f) (v label : String) :
    (g.updateNode v fun u => { u with label }).LabelledBy
      fun w => if w = v then label else f w := by
  intro u hu
  obtain ⟨w, hw, rfl⟩ := List.mem_map.mp hu
  by_cases hv : w.id = v
  · simp [hv]
  · simpa [hv] using h w hw

/-- A node that is added has the label given, else the one it has, or its id if it is new. -/
theorem LabelledBy.addNode (h : g.LabelledBy f) (hf : ∀ w ∉ g.ids, f w = w) (v : String)
    (label : Option String) :
    (g.addNode v label).LabelledBy fun w => if w = v then label.getD (f v) else f w := by
  unfold Graph.addNode
  split_ifs with hv
  · cases label with
    | none => exact h.congr fun w _ => by split_ifs with hw <;> simp [hw]
    | some l => exact h.updateNode v l
  · have hv : v ∉ g.ids := fun hm => hv (g.hasNode_iff.mpr hm)
    intro u hu
    rcases List.mem_append.mp hu with hu | hu
    · have hne : u.id ≠ v := fun he => hv (he ▸ List.mem_map_of_mem hu)
      simpa [hne] using h u hu
    · obtain rfl := List.mem_singleton.mp hu
      simp [hf v hv]

theorem LabelledBy.addEdge (h : g.LabelledBy f) (hf : ∀ w ∉ g.ids, f w = w) (s t : String) :
    (g.addEdge s t).LabelledBy f := by
  have hf' : ∀ w ∉ (g.addNode s).ids, f w = w := fun w hw =>
    hf w fun hm => hw (by rw [g.ids_addNode, mem_mention]; exact Or.inl hm)
  have hs : (g.addNode s).LabelledBy f := (h.addNode hf s none).congr fun w _ => by
    split_ifs with hw <;> simp [hw]
  exact (hs.addNode hf' t none).congr fun w _ => by split_ifs with hw <;> simp [hw]

end Graph

namespace Description

/-! ### Labels of statements -/

/-- The labels in an attribute list, in order. -/
def labelsOf (attributes : Attributes) : List String :=
  (attributes.filter (·.1 == "label")).map (·.2)

theorem valueOf?_label (attributes : Attributes) :
    valueOf? "label" attributes = (labelsOf attributes).getLast? := by
  rw [valueOf?, labelsOf, List.getLast?_map, ← List.head?_reverse, ← List.filter_reverse,
    List.head?_filter]

namespace Statement

/-- The labels that the statement gives the node of an id, in order. -/
def givenLabels (v : String) : Statement → List String
  | node w attributes => if w = v then labelsOf attributes else []
  | _ => []

/-- The labels that the statement makes the default, in order. -/
def newDefaults : Statement → List String
  | nodeDefaults attributes => labelsOf attributes
  | _ => []

theorem givenLabels_eq_nil {v : String} {s : Statement} (h : v ∉ s.mentioned) :
    s.givenLabels v = [] := by
  cases s with
  | node w attributes =>
    have hne : w ≠ v := fun he => h (by simp [mentioned, he])
    simp [givenLabels, hne]
  | graphAttributes | nodeDefaults | edgeDefaults | chain => rfl

end Statement

/-- The default label in force behind statements. -/
def defaultAfter (statements : List Statement) : Option String :=
  (statements.flatMap Statement.newDefaults).getLast?

/-- The statements before the first that mentions an id. -/
def beforeMention (v : String) (statements : List Statement) : List Statement :=
  statements.takeWhile fun s => v ∉ s.mentioned

/-- The label of an id: the last that a node statement gives it, else the default in force where it
is mentioned first, else the id. -/
def labelIn (statements : List Statement) (v : String) : String :=
  ((statements.flatMap (Statement.givenLabels v)).getLast?.or
    (defaultAfter (beforeMention v statements))).getD v

section Concat

variable {done : List Statement} {s : Statement} {v : String}

theorem defaultAfter_concat : defaultAfter (done ++ [s]) =
    s.newDefaults.getLast?.or (defaultAfter done) := by
  simp [defaultAfter]

theorem beforeMention_of_mem (h : v ∈ done.flatMap Statement.mentioned) :
    beforeMention v (done ++ [s]) = beforeMention v done := by
  obtain ⟨t, ht, hv⟩ := List.mem_flatMap.mp h
  unfold beforeMention
  rw [List.takeWhile_append, if_neg]
  intro hlen
  have hall := List.takeWhile_eq_self_iff.mp ((List.takeWhile_prefix _).eq_of_length hlen) t ht
  exact of_decide_eq_true hall hv

theorem beforeMention_of_not_mem (h : v ∉ done.flatMap Statement.mentioned)
    (hs : v ∈ s.mentioned) : beforeMention v (done ++ [s]) = done := by
  have hall : ∀ t ∈ done, decide (v ∉ t.mentioned) = true := fun t ht =>
    decide_eq_true fun hv => h (List.mem_flatMap.mpr ⟨t, ht, hv⟩)
  rw [beforeMention, List.takeWhile_append_of_pos hall, List.takeWhile_cons]
  simp [hs]

/-- The label of an id that has been mentioned changes only where it is given another. -/
theorem labelIn_concat_of_mem (h : v ∈ done.flatMap Statement.mentioned) :
    labelIn (done ++ [s]) v = (s.givenLabels v).getLast?.getD (labelIn done v) := by
  rw [labelIn, beforeMention_of_mem h, List.flatMap_append, List.flatMap_singleton,
    List.getLast?_append, labelIn]
  cases (s.givenLabels v).getLast? <;> simp

/-- An id that is new takes the label it is given, else the default. -/
theorem labelIn_concat_of_not_mem (h : v ∉ done.flatMap Statement.mentioned)
    (hs : v ∈ s.mentioned) : labelIn (done ++ [s]) v =
      ((s.givenLabels v).getLast?.or (defaultAfter done)).getD v := by
  have hnil : done.flatMap (Statement.givenLabels v) = [] :=
    List.flatMap_eq_nil_iff.mpr fun t ht =>
      Statement.givenLabels_eq_nil fun hv => h (List.mem_flatMap.mpr ⟨t, ht, hv⟩)
  rw [labelIn, beforeMention_of_not_mem h hs, List.flatMap_append, hnil]
  simp

end Concat

/-! ### Labels of drafts -/

section Drafts

variable {done : List Statement} {s : Statement} {d d' : Draft}

/-- The draft has the labels and the default label of the statements. -/
structure Labelled (done : List Statement) (d : Draft) : Prop where
  defaultLabel : d.defaultLabel = defaultAfter done
  ids : d.graph.ids = (done.flatMap Statement.mentioned).foldl mention []
  labels : d.graph.LabelledBy (labelIn done)

theorem Labelled.mem_ids (h : Labelled done d) {v : String} :
    v ∈ d.graph.ids ↔ v ∈ done.flatMap Statement.mentioned := by
  rw [h.ids, mem_foldl_mention]
  simp

/-- The nodes of a chain that are new have their ids as labels. -/
theorem labelledBy_addChain {g : Graph Float} {f : String → String} (h : g.LabelledBy f)
    (hf : ∀ v ∉ g.ids, f v = v) (first : String) (rest : List String) :
    (addChain g first rest).LabelledBy f := by
  unfold addChain
  induction hops first rest generalizing g with
  | nil => exact h
  | cons p hs ih =>
    obtain ⟨s, t⟩ := p
    refine ih (h.addEdge hf s t) fun v hv => hf v fun hm => hv ?_
    rw [g.ids_addEdge, mem_mention, mem_mention]
    exact Or.inl (Or.inl hm)

theorem labelledBy_relabel {g : Graph Float} {f : String → String} (h : g.LabelledBy f)
    (ids : List String) (label : String) :
    (ids.foldl (fun g v => g.updateNode v fun u => { u with label }) g).LabelledBy fun v =>
      if v ∈ ids then label else f v := by
  induction ids generalizing g f with
  | nil => simpa using h
  | cons v ids ih =>
    refine (ih (h.updateNode v label)).congr fun w _ => ?_
    by_cases hw : w = v <;> by_cases hm : w ∈ ids <;> simp [hw, hm]

theorem act_defaultLabel (h : d.act s = .ok d') :
    d'.defaultLabel = s.newDefaults.getLast?.or d.defaultLabel := by
  cases s with
  | graphAttributes attributes place =>
    simp only [Draft.act] at h
    split at h <;> cases h
    rfl
  | nodeDefaults attributes =>
    cases h
    rw [valueOf?_label]
    rfl
  | edgeDefaults | chain | node =>
    cases h
    rfl

theorem mem_ids_or_mentioned (h : d.act s = .ok d') {v : String} (hv : v ∈ d'.graph.ids) :
    v ∈ d.graph.ids ∨ v ∈ s.mentioned := by
  rwa [(act_graph h).1, mem_foldl_mention] at hv

section Acts

variable {f : String → String} (hl : d.graph.LabelledBy f)
include hl

/-- A statement that makes no node leaves the labels alone. -/
theorem labelledBy_of_no_mention (h : d.act s = .ok d') (hs : s.mentioned = [])
    (hnodes : d'.graph.nodes = d.graph.nodes) (default : String → String) :
    d'.graph.LabelledBy fun v => if v ∈ d.graph.ids then f v else default v := by
  have hl' : d'.graph.LabelledBy f := fun u hu => hl u (hnodes ▸ hu)
  refine hl'.congr fun v hv => (if_pos ?_).symm
  exact (mem_ids_or_mentioned h hv).resolve_right (hs ▸ List.not_mem_nil)

variable (hf : ∀ v ∉ d.graph.ids, f v = v)
include hf

/-- A chain gives the default label to the ids of it that are new. -/
theorem labelledBy_chain {first : String} {rest : List String}
    (h : d.act (.chain first rest) = .ok d') : d'.graph.LabelledBy fun v =>
      if v ∈ d.graph.ids then f v else d.defaultLabel.getD v := by
  have hchain := labelledBy_addChain hl hf first rest
  have hnew : ∀ v ∈ d'.graph.ids, v ∉ d.graph.ids → v ∈ first :: rest := fun v hv hm => by
    have hv := (mem_ids_or_mentioned h hv).resolve_left hm
    cases rest with
    | nil => exact absurd hv List.not_mem_nil
    | cons => exact hv
  cases h
  cases hd : d.defaultLabel with
  | none =>
    dsimp only
    refine hchain.congr fun v _ => ?_
    by_cases hm : v ∈ d.graph.ids
    · rw [if_pos hm]
    · rw [if_neg hm, hf v hm]
      rfl
  | some label =>
    simp only [hd] at hnew ⊢
    refine (labelledBy_relabel hchain _ label).congr fun v hv => ?_
    by_cases hm : v ∈ d.graph.ids
    · simp [hm, d.graph.hasNode_iff]
    · have hmem := hnew v hv hm
      simp [hm, d.graph.hasNode_iff, hmem]

/-- A node statement gives its last label, else the default if its id is new. -/
theorem labelledBy_node {v : String} {attributes : Attributes}
    (h : d.act (.node v attributes) = .ok d') : d'.graph.LabelledBy fun w =>
      ((Statement.node v attributes).givenLabels w).getLast?.getD
        (if w ∈ d.graph.ids then f w else d.defaultLabel.getD w) := by
  have hids := fun w => mem_ids_or_mentioned h (v := w)
  cases h
  refine (hl.addNode hf v _).congr fun w hw => ?_
  by_cases hwv : w = v
  · subst hwv
    by_cases hm : w ∈ d.graph.ids
    · simp [Statement.givenLabels, hm, d.graph.hasNode_iff, valueOf?_label]
    · simp only [Statement.givenLabels, hm, d.graph.hasNode_iff, valueOf?_label, hf w hm, if_true,
        if_false]
      cases (labelsOf attributes).getLast? <;> simp
  · have hm : w ∈ d.graph.ids := (hids w hw).resolve_right (by simp [Statement.mentioned, hwv])
    simp [Statement.givenLabels, hwv, hm, Ne.symm hwv]

/-- A statement gives its labels to the ids it names, and the default to those of them that are
new. -/
theorem act_labelledBy (h : d.act s = .ok d') :
    d'.graph.LabelledBy fun v => (s.givenLabels v).getLast?.getD
      (if v ∈ d.graph.ids then f v else d.defaultLabel.getD v) := by
  cases s with
  | graphAttributes attributes place =>
    have hnodes : d'.graph.nodes = d.graph.nodes := by
      simp only [Draft.act] at h
      split at h <;> cases h
      next g hg => exact (setAll_graph hg).1
    exact labelledBy_of_no_mention hl h rfl hnodes _
  | nodeDefaults attributes | edgeDefaults attributes =>
    have hnodes : d'.graph.nodes = d.graph.nodes := by
      cases h
      rfl
    exact labelledBy_of_no_mention hl h rfl hnodes _
  | chain first rest => exact labelledBy_chain hl hf h
  | node v attributes => exact labelledBy_node hl hf h

end Acts

theorem labelled_empty : Labelled [] {} := ⟨rfl, rfl, fun _ hu => absurd hu List.not_mem_nil⟩

/-- One more statement keeps the labels of a draft those of its statements. -/
theorem Labelled.act (h : Labelled done d) (hact : d.act s = .ok d') :
    Labelled (done ++ [s]) d' := by
  have hids : d'.graph.ids = s.mentioned.foldl mention d.graph.ids := (act_graph hact).1
  -- the labels so far, with its id for what has not been mentioned yet
  let f : String → String := fun v => if v ∈ d.graph.ids then labelIn done v else v
  have hold : d.graph.LabelledBy f := h.labels.congr fun v hv => (if_pos hv).symm
  have hnew : ∀ v ∉ d.graph.ids, f v = v := fun v hv => if_neg hv
  refine ⟨by rw [act_defaultLabel hact, defaultAfter_concat, h.defaultLabel],
    by rw [hids, h.ids, List.flatMap_append, List.foldl_append]; simp,
    (act_labelledBy hold hnew hact).congr fun v hv => ?_⟩
  by_cases hm : v ∈ d.graph.ids
  · rw [labelIn_concat_of_mem (h.mem_ids.mp hm), if_pos hm]
    exact congrArg _ (if_pos hm)
  · rw [hids, mem_foldl_mention] at hv
    rw [labelIn_concat_of_not_mem (mt h.mem_ids.mpr hm) (hv.resolve_left hm), if_neg hm,
      h.defaultLabel]
    cases (s.givenLabels v).getLast? <;> rfl

/-- **The nodes of a draft have the labels that its statements give.** -/
theorem actFrom_labelled {finish : Position} {statements : List Statement}
    (h : Labelled done d) (hact : actFrom finish d statements = .ok d') :
    Labelled (done ++ statements) d' := by
  induction statements generalizing done d with
  | nil =>
    cases hact
    simpa using h
  | cons s statements ih =>
    rw [actFrom_cons] at hact
    split at hact
    · next d₁ h₁ =>
      have := ih (h.act h₁) hact
      rwa [List.append_assoc] at this
    · cases hact

end Drafts

end Description

end Scrawl
