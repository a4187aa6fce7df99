import Mathlib.Data.Finset.Card
import Scrawl.Proofs.Description.Attributes

/-!
# Scrawl.Proofs.Description.Drafts — what statements do to a graph

Statements name ids and make edges; `mention` adds an id where it is missing.

* `act_ok_iff`, `actFrom_ok_iff`: statements are refused only for an attribute that is not
  admissible.
* `act_graph`, `actFrom_graph`: the ids of the graph are those that the statements name, in the order
  of their first mention, and its edges are their hops in order.
-/

namespace Scrawl

/-- The ids with one more, unless it is there. -/
def mention (ids : List String) (v : String) : List String := if v ∈ ids then ids else ids ++ [v]

/-! ### Mentions -/

section Mention

variable {ids : List String} {u v : String}

theorem mem_mention : u ∈ mention ids v ↔ u ∈ ids ∨ u = v := by
  unfold mention
  split_ifs with h
  · exact ⟨Or.inl, fun hu => hu.elim id fun huv => huv ▸ h⟩
  · simp

theorem mention_mention : mention (mention ids v) v = mention ids v :=
  if_pos (mem_mention.mpr (Or.inr rfl))

theorem nodup_mention (h : ids.Nodup) : (mention ids v).Nodup := by
  unfold mention
  split_ifs with hv
  · exact h
  · rw [← List.concat_eq_append]
    exact h.concat hv

theorem mem_foldl_mention (l : List String) : u ∈ l.foldl mention ids ↔ u ∈ ids ∨ u ∈ l := by
  induction l generalizing ids with
  | nil => simp
  | cons a l ih => rw [List.foldl_cons, ih, mem_mention, List.mem_cons, or_assoc]

theorem nodup_foldl_mention (l : List String) (h : ids.Nodup) : (l.foldl mention ids).Nodup := by
  induction l generalizing ids with
  | nil => exact h
  | cons a l ih => exact ih (nodup_mention h)

/-- New ids are put behind those that are there. -/
theorem foldl_mention_of_nodup {l : List String} (h : (ids ++ l).Nodup) :
    l.foldl mention ids = ids ++ l := by
  induction l generalizing ids with
  | nil => simp
  | cons v l ih =>
    have hv : v ∉ ids := fun hm => List.disjoint_of_nodup_append h hm List.mem_cons_self
    rw [List.foldl_cons, mention, if_neg hv, ih (by simpa using h), List.append_assoc]
    rfl

theorem foldl_mention_of_mem {l : List String} (h : ∀ v ∈ l, v ∈ ids) :
    l.foldl mention ids = ids := by
  induction l with
  | nil => rfl
  | cons v l ih =>
    obtain ⟨hv, hl⟩ := List.forall_mem_cons.mp h
    rw [List.foldl_cons, mention, if_pos hv, ih hl]

/-- Every id mentioned is there once. -/
theorem length_foldl_mention (l : List String) : (l.foldl mention []).length = l.toFinset.card := by
  rw [← List.toFinset_card_of_nodup (nodup_foldl_mention l List.nodup_nil)]
  congr 1
  ext v
  simp [mem_foldl_mention]

end Mention

/-! ### Changes of a graph -/

namespace Graph

variable {α : Type} (g : Graph α)

/-- The ends of the edges, in order. -/
def ends : List (String × String) := g.edges.map fun e => (e.source, e.target)

theorem hasNode_iff {v : String} : g.hasNode v ↔ v ∈ g.ids := by
  simp [hasNode, ids]

theorem ids_updateNode (v : String) {f : Node α → Node α} (hf : ∀ u, (f u).id = u.id) :
    (g.updateNode v f).ids = g.ids := by
  simp only [updateNode, ids, List.map_map]
  refine List.map_congr_left fun u _ => ?_
  simp only [Function.comp_apply]
  split_ifs
  · exact hf u
  · rfl

theorem ids_addNode (v : String) (label : Option String) :
    (g.addNode v label).ids = mention g.ids v := by
  unfold addNode mention
  simp only [hasNode_iff]
  split_ifs
  · cases label with
    | none => rfl
    | some l => exact g.ids_updateNode v fun _ => rfl
  · simp [ids]

theorem ends_addNode (v : String) (label : Option String) : (g.addNode v label).ends = g.ends := by
  unfold addNode
  split_ifs
  · cases label <;> rfl
  · rfl

theorem ids_addEdge (s t : String) : (g.addEdge s t).ids = mention (mention g.ids s) t := by
  rw [← ids_addNode g s none, ← ids_addNode _ t none]
  rfl

theorem ends_addEdge (s t : String) : (g.addEdge s t).ends = g.ends ++ [(s, t)] := by
  have h : (g.addEdge s t).ends = ((g.addNode s).addNode t).ends ++ [(s, t)] := by
    simp [addEdge, ends]
  rw [h, ends_addNode, ends_addNode]

/-- The direction and the gaps. -/
def spacing : Direction × α × α := (g.direction, g.nodeGap, g.rankGap)

theorem spacing_addNode (v : String) (label : Option String) :
    (g.addNode v label).spacing = g.spacing := by
  unfold addNode
  split_ifs
  · cases label <;> rfl
  · rfl

theorem spacing_addEdge (s t : String) : (g.addEdge s t).spacing = g.spacing :=
  (spacing_addNode _ t none).trans (spacing_addNode g s none)

end Graph

namespace Description

/-! ### Chains -/

section Chains

variable {g : Graph Float}

/-- The graph with the edges of a chain. -/
def addChain (g : Graph Float) (first : String) (rest : List String) : Graph Float :=
  (hops first rest).foldl (fun g (s, t) => g.addEdge s t) g

theorem ends_addChain (first : String) (rest : List String) :
    (addChain g first rest).ends = g.ends ++ hops first rest := by
  unfold addChain
  induction hops first rest generalizing g with
  | nil => simp
  | cons p hs ih =>
    obtain ⟨s, t⟩ := p
    simp [ih, Graph.ends_addEdge]

theorem ids_addChain (first v : String) (rest : List String) :
    (addChain g first (v :: rest)).ids = (first :: v :: rest).foldl mention g.ids := by
  induction rest generalizing g first v with
  | nil => exact g.ids_addEdge first v
  | cons w rest ih =>
    have h := ih v w (g := g.addEdge first v)
    rw [List.foldl_cons, g.ids_addEdge, mention_mention] at h
    exact h

theorem spacing_addChain (first : String) (rest : List String) :
    (addChain g first rest).spacing = g.spacing := by
  unfold addChain
  induction hops first rest generalizing g with
  | nil => rfl
  | cons p hs ih => exact ih.trans (g.spacing_addEdge p.1 p.2)

theorem spacing_relabel (labels : List String) (label : String) :
    (labels.foldl (fun g v => g.updateNode v fun u => { u with label }) g).spacing =
      g.spacing := by
  induction labels generalizing g with
  | nil => rfl
  | cons v labels ih => exact ih

theorem relabel_ids (labels : List String) (label : String) :
    (labels.foldl (fun g v => g.updateNode v fun u => { u with label }) g).ids = g.ids ∧
      (labels.foldl (fun g v => g.updateNode v fun u => { u with label }) g).ends = g.ends := by
  induction labels generalizing g with
  | nil => exact ⟨rfl, rfl⟩
  | cons v labels ih =>
    obtain ⟨hids, hends⟩ := ih (g := g.updateNode v fun u => { u with label })
    exact ⟨hids.trans (g.ids_updateNode v fun _ => rfl), hends⟩

end Chains

/-! ### Statements -/

namespace Statement

/-- The ids that the statement names; a chain without a target names none. -/
def mentioned : Statement → List String
  | chain _ [] => []
  | chain first (v :: rest) => first :: v :: rest
  | node v _ => [v]
  | _ => []

/-- The ends of the edges that the statement makes. -/
def joins : Statement → List (String × String)
  | chain first rest => hops first rest
  | _ => []

/-- Whether the attributes that the statement gives the graph are admissible. -/
def Admissible : Statement → Prop
  | graphAttributes attributes _ =>
    ∀ key value, valueOf? key attributes = some value → Description.Admissible key value
  | _ => True

end Statement

theorem act_ok_iff {d : Draft} {s : Statement} : (∃ d', d.act s = .ok d') ↔ s.Admissible := by
  cases s with
  | graphAttributes attributes place =>
    simp only [Statement.Admissible, ← mem_lastValues]
    rw [← setAll_ok_iff (g := d.graph), Draft.act]
    cases (lastValues attributes).foldlM (fun g (key, value) => setAttribute g key value) d.graph
      <;> simp
  | nodeDefaults | edgeDefaults | chain | node => simp [Draft.act, Statement.Admissible]

/-- A statement adds the ids that it names where they are missing, and the edges that it makes. -/
theorem act_graph {d d' : Draft} {s : Statement} (h : d.act s = .ok d') :
    d'.graph.ids = s.mentioned.foldl mention d.graph.ids ∧
      d'.graph.ends = d.graph.ends ++ s.joins := by
  cases s with
  | graphAttributes attributes place =>
    simp only [Draft.act] at h
    split at h
    · next g hg =>
      cases h
      obtain ⟨hnodes, hedges⟩ := setAll_graph hg
      simp [Statement.mentioned, Statement.joins, Graph.ids, Graph.ends, hnodes, hedges]
    · cases h
  | nodeDefaults attributes | edgeDefaults attributes =>
    cases h
    simp [Statement.mentioned, Statement.joins]
  | chain first rest =>
    -- labels given to new nodes change neither ids nor edges
    have hlabel : d'.graph.ids = (addChain d.graph first rest).ids ∧
        d'.graph.ends = (addChain d.graph first rest).ends := by
      cases h
      cases d.defaultLabel with
      | none => exact ⟨rfl, rfl⟩
      | some label => exact relabel_ids _ label
    rw [hlabel.1, hlabel.2, ends_addChain]
    refine ⟨?_, rfl⟩
    cases rest with
    | nil => rfl
    | cons v rest => exact ids_addChain first v rest
  | node v attributes =>
    cases h
    simp [Statement.mentioned, Statement.joins, Graph.ids_addNode, Graph.ends_addNode]

/-! ### Statement lists -/

section Lists

variable (finish : Position) {d d' : Draft} {statements : List Statement}

/-- Lets statements act on a draft. -/
def actFrom (finish : Position) (d : Draft) (statements : List Statement) : Except Fault Draft :=
  statements.foldlM (fun d s =>
    match d.act s with
    | .ok d => .ok d
    | .error (cause, token) => .error (faultAt cause finish (some token))) d

theorem actFrom_cons (s : Statement) : actFrom finish d (s :: statements) =
    match d.act s with
    | .ok d' => actFrom finish d' statements
    | .error (cause, token) => .error (faultAt cause finish (some token)) := by
  unfold actFrom
  rw [List.foldlM_cons]
  cases d.act s <;> rfl

theorem actFrom_ok_iff :
    (∃ d', actFrom finish d statements = .ok d') ↔ ∀ s ∈ statements, s.Admissible := by
  induction statements generalizing d with
  | nil => simp [actFrom, pure, Except.pure]
  | cons s statements ih =>
    rw [actFrom_cons, List.forall_mem_cons, ← act_ok_iff (d := d)]
    cases h : d.act s with
    | ok d' => simp [ih]
    | error e => simp

/-- What every statement of a list keeps, all of them keep. -/
theorem actFrom_preserves {P : Draft → Prop} {finish : Position}
    (hstep : ∀ {d d' : Draft} {s : Statement}, s ∈ statements → P d → d.act s = .ok d' → P d')
    (h : P d) (hact : actFrom finish d statements = .ok d') : P d' := by
  induction statements generalizing d with
  | nil =>
    cases hact
    exact h
  | cons s statements ih =>
    rw [actFrom_cons] at hact
    split at hact
    · next d₁ h₁ =>
      exact ih (fun hs => hstep (List.mem_cons_of_mem _ hs)) (hstep List.mem_cons_self h h₁) hact
    · cases hact

theorem actFrom_graph (h : actFrom finish d statements = .ok d') :
    d'.graph.ids = (statements.flatMap Statement.mentioned).foldl mention d.graph.ids ∧
      d'.graph.ends = d.graph.ends ++ statements.flatMap Statement.joins := by
  induction statements generalizing d with
  | nil =>
    cases h
    simp
  | cons s statements ih =>
    rw [actFrom_cons] at h
    split at h
    · next d₁ h₁ =>
      obtain ⟨hids, hends⟩ := act_graph h₁
      obtain ⟨hids', hends'⟩ := ih h
      rw [hids', hends', hids, hends]
      simp
    · cases h

end Lists

end Description

end Scrawl
