import Scrawl.Proofs.Decimal.Doubles
import Scrawl.Proofs.Description.Acceptance
import Scrawl.Proofs.Description.Labels
import Scrawl.Proofs.Layered.Arcs

/-!
# Scrawl.Proofs.Description.Content — what a description says

The graph that is read has the content of its statements, taken together, and no geometry.

* `foldl_mention_nil`: mentions in order are the ids without repetition.
* `isMagnitude_of_readGap?`: a gap that is read is a finite double that is not negative.
* `Draft.Plain.act`: a statement leaves the direction among the four, the gaps finite and not
  negative, and the graph without geometry.
* `joined_of_read`: both ends of every edge are nodes.
* `read_says`: edges, ids, labels, direction and gaps of the graph that is read.
-/

namespace Scrawl

/-- A double that is a finite number, and not negative. -/
def Decimal.IsMagnitude (x : Float) : Prop := ∃ q, (Binary.ofFloat x).value? = some q ∧ 0 ≤ q

/-! ### Mentions in order -/

theorem foldl_mention (l : List String) (ids : List String) :
    l.foldl mention ids = ids ++ (l.filter (· ∉ ids)).eraseDups := by
  induction l generalizing ids with
  | nil => simp
  | cons v l ih =>
    rw [List.foldl_cons, ih, mention]
    by_cases hv : v ∈ ids
    · rw [if_pos hv, List.filter_cons_of_neg (by simpa using hv)]
    · rw [if_neg hv, List.filter_cons_of_pos (by simpa using hv), List.eraseDups_cons,
        List.filter_filter, List.append_assoc, List.singleton_append]
      congr 3
      refine List.filter_congr fun w _ => ?_
      by_cases hw : w = v <;> simp [hw]

/-- Mentions in order are the ids without repetition, each at its first place. -/
theorem foldl_mention_nil (l : List String) : l.foldl mention [] = l.eraseDups := by
  rw [foldl_mention]
  simp

/-! ### Graphs without geometry -/

/-- Nothing has been measured or placed. -/
structure Graph.Bare {α : Type} (g : Graph α) : Prop where
  nodes : ∀ u ∈ g.nodes, u.width = none ∧ u.height = none ∧ u.x = none ∧ u.y = none
  edges : ∀ e ∈ g.edges, e.points = []
  size : g.width = none ∧ g.height = none

namespace Graph

variable {α : Type} {g : Graph α}

theorem Bare.relabel (h : g.Bare) (v label : String) :
    (g.updateNode v fun u => { u with label }).Bare := by
  refine ⟨fun u hu => ?_, h.edges, h.size⟩
  obtain ⟨w, hw, rfl⟩ := List.mem_map.mp hu
  split_ifs
  · exact h.nodes w hw
  · exact h.nodes w hw

theorem Bare.addNode (h : g.Bare) (v : String) (label : Option String) :
    (g.addNode v label).Bare := by
  unfold Graph.addNode
  split_ifs
  · cases label with
    | none => exact h
    | some l => exact h.relabel v l
  · refine ⟨fun u hu => ?_, h.edges, h.size⟩
    rcases List.mem_append.mp hu with hu | hu
    · exact h.nodes u hu
    · obtain rfl := List.mem_singleton.mp hu
      exact ⟨rfl, rfl, rfl, rfl⟩

theorem Bare.addEdge (h : g.Bare) (s t : String) : (g.addEdge s t).Bare := by
  have hnodes := (h.addNode s none).addNode t none
  refine ⟨hnodes.nodes, fun e he => ?_, hnodes.size⟩
  rcases List.mem_append.mp he with he | he
  · exact hnodes.edges e he
  · obtain rfl := List.mem_singleton.mp he
    rfl

/-- A node is found by its id if no two nodes share one. -/
theorem node?_of_nodup (hn : g.ids.Nodup) {u : Node α} (hu : u ∈ g.nodes) :
    g.node? u.id = some u := by
  obtain ⟨w, hw⟩ : ∃ w, g.node? u.id = some w :=
    Option.isSome_iff_exists.mp (List.find?_isSome.mpr ⟨u, hu, by simp⟩)
  have hid : w.id = u.id := by simpa using List.find?_some hw
  rw [hw, List.inj_on_of_nodup_map hn (List.mem_of_find?_eq_some hw) hu hid]

end Graph

namespace Description

/-! ### Direction and gaps -/

/-- A direction of the four and gaps that are finite and not negative. -/
structure Spaced (g : Graph Float) : Prop where
  direction : g.direction ∈ Direction.all
  nodeGap : Decimal.IsMagnitude g.nodeGap
  rankGap : Decimal.IsMagnitude g.rankGap

theorem isMagnitude_of_readGap? {value : String} {x : Float} (h : readGap? value = some x) :
    Decimal.IsMagnitude x := by
  unfold readGap? at h
  split at h
  · next negative m e hn =>
    obtain ⟨numeral, -, hb⟩ := Option.map_eq_some_iff.mp hn
    split_ifs at h with hsign
    cases h
    have hdouble : (Decimal.Binary.finite negative m e).IsDouble :=
      hb ▸ Decimal.Binary.isDouble_toBinary numeral
    rw [Decimal.IsMagnitude, Decimal.Binary.ofFloat_toFloat hdouble]
    exact Decimal.Binary.value?_nonneg.mpr (by simpa using hsign)
  · cases h

/-- A graph attribute sets a direction of the four or a gap, and nothing else. -/
theorem setAttribute_cases {g g' : Graph Float} {key value : String}
    (h : setAttribute g key value = .ok g') : ∃ direction nodeGap rankGap,
      g' = { g with direction, nodeGap, rankGap } ∧
        (direction = g.direction ∨ direction ∈ Direction.all) ∧
        (nodeGap = g.nodeGap ∨ Decimal.IsMagnitude nodeGap) ∧
        (rankGap = g.rankGap ∨ Decimal.IsMagnitude rankGap) := by
  unfold setAttribute at h
  split at h
  · split at h <;> cases h
    next d hd =>
    exact ⟨d, _, _, rfl, Or.inr (List.mem_of_find?_eq_some hd), Or.inl rfl, Or.inl rfl⟩
  · cases hgap : readGap? value <;> rw [hgap] at h <;> cases h
    exact ⟨_, _, _, rfl, Or.inl rfl, Or.inr (isMagnitude_of_readGap? hgap), Or.inl rfl⟩
  · cases hgap : readGap? value <;> rw [hgap] at h <;> cases h
    exact ⟨_, _, _, rfl, Or.inl rfl, Or.inl rfl, Or.inr (isMagnitude_of_readGap? hgap)⟩
  · cases h
    exact ⟨_, _, _, rfl, Or.inl rfl, Or.inl rfl, Or.inl rfl⟩

theorem Spaced.setAttribute {g g' : Graph Float} {key value : String} (h : Spaced g)
    (hset : Description.setAttribute g key value = .ok g') : Spaced g' := by
  obtain ⟨direction, nodeGap, rankGap, rfl, hd, hn, hr⟩ := setAttribute_cases hset
  refine ⟨?_, ?_, ?_⟩
  · exact hd.elim (fun he => he ▸ h.direction) id
  · exact hn.elim (fun he => he ▸ h.nodeGap) id
  · exact hr.elim (fun he => he ▸ h.rankGap) id

theorem bare_setAttribute {g g' : Graph Float} {key value : String} (h : g.Bare)
    (hset : setAttribute g key value = .ok g') : g'.Bare := by
  obtain ⟨direction, nodeGap, rankGap, rfl, -, -, -⟩ := setAttribute_cases hset
  exact ⟨h.nodes, h.edges, h.size⟩

/-! ### Statements -/

/-- It is a matter of the direction and the gaps alone. -/
theorem Spaced.congr {g g' : Graph Float} (h : Spaced g) (hd : g'.direction = g.direction)
    (hn : g'.nodeGap = g.nodeGap) (hr : g'.rankGap = g.rankGap) : Spaced g' :=
  ⟨hd ▸ h.direction, hn ▸ h.nodeGap, hr ▸ h.rankGap⟩

theorem Spaced.updateNode {g : Graph Float} (h : Spaced g) (v : String)
    (f : Node Float → Node Float) : Spaced (g.updateNode v f) := h.congr rfl rfl rfl

theorem Spaced.addNode {g : Graph Float} (h : Spaced g) (v : String) (label : Option String) :
    Spaced (g.addNode v label) := by
  unfold Graph.addNode
  split_ifs
  · cases label with
    | none => exact h
    | some l => exact h.updateNode v _
  · exact h.congr rfl rfl rfl

theorem Spaced.addEdge {g : Graph Float} (h : Spaced g) (s t : String) : Spaced (g.addEdge s t) :=
  ((h.addNode s none).addNode t none).congr rfl rfl rfl

/-- A draft without geometry, with a direction of the four and with gaps that are finite and not
negative. -/
structure Draft.Plain (d : Draft) : Prop where
  bare : d.graph.Bare
  spaced : Spaced d.graph

section Drafts

variable {d d' : Draft}

theorem plain_setAll {attributes : Attributes} {g g' : Graph Float} (hb : g.Bare) (hs : Spaced g)
    (h : attributes.foldlM (fun g (key, value) => setAttribute g key value) g = .ok g') :
    g'.Bare ∧ Spaced g' :=
  setAll_preserves (P := fun g => g.Bare ∧ Spaced g)
    (fun _ hg hset => ⟨bare_setAttribute hg.1 hset, hg.2.setAttribute hset⟩) ⟨hb, hs⟩ h

theorem plain_foldl {β : Type} {step : Graph Float → β → Graph Float}
    (hstep : ∀ g b, g.Bare → Spaced g → (step g b).Bare ∧ Spaced (step g b)) (l : List β)
    {g : Graph Float} (hb : g.Bare) (hs : Spaced g) :
    (l.foldl step g).Bare ∧ Spaced (l.foldl step g) := by
  induction l generalizing g with
  | nil => exact ⟨hb, hs⟩
  | cons b l ih =>
    obtain ⟨hb', hs'⟩ := hstep g b hb hs
    exact ih hb' hs'

/-- A statement keeps a draft plain. -/
theorem Draft.Plain.act {s : Statement} (h : d.Plain) (hact : d.act s = .ok d') : d'.Plain := by
  cases s with
  | graphAttributes attributes place =>
    simp only [Draft.act] at hact
    split at hact <;> cases hact
    next g hg =>
    obtain ⟨hb, hs⟩ := plain_setAll h.bare h.spaced hg
    exact ⟨hb, hs⟩
  | nodeDefaults attributes | edgeDefaults attributes =>
    cases hact
    exact ⟨h.bare, h.spaced⟩
  | chain first rest =>
    have hchain : (addChain d.graph first rest).Bare ∧ Spaced (addChain d.graph first rest) :=
      plain_foldl (fun g p hb hs => ⟨hb.addEdge p.1 p.2, hs.addEdge p.1 p.2⟩) _ h.bare h.spaced
    cases hd : d.defaultLabel with
    | none =>
      simp only [Draft.act, hd] at hact
      cases hact
      exact ⟨hchain.1, hchain.2⟩
    | some label =>
      simp only [Draft.act, hd] at hact
      cases hact
      obtain ⟨hb, hs⟩ := plain_foldl
        (fun g v hb hs => ⟨Graph.Bare.relabel hb v label, hs.updateNode v _⟩)
        ((first :: rest).filter (!d.graph.hasNode ·)) hchain.1 hchain.2
      exact ⟨hb, hs⟩
  | node v attributes =>
    cases hact
    exact ⟨h.bare.addNode v _, h.spaced.addNode v _⟩

theorem plain_empty : Draft.Plain {} :=
  have hgap : Decimal.IsMagnitude 50.0 := ⟨50, by decide +kernel, by decide⟩
  ⟨⟨fun _ hu => absurd hu List.not_mem_nil, fun _ he => absurd he List.not_mem_nil, rfl, rfl⟩,
    by decide, hgap, hgap⟩

end Drafts

/-! ### Descriptions -/

/-- The ends of the edges that a statement makes are among the ids that it names. -/
theorem Statement.mem_mentioned {s : Statement} {p : String × String} (h : p ∈ s.joins) :
    p.1 ∈ s.mentioned ∧ p.2 ∈ s.mentioned := by
  cases s with
  | chain first rest =>
    cases rest with
    | nil => exact absurd h List.not_mem_nil
    | cons v rest =>
      obtain ⟨hs, ht⟩ := List.of_mem_zip h
      exact ⟨hs, List.mem_cons_of_mem _ ht⟩
  | graphAttributes | nodeDefaults | edgeDefaults | node => exact absurd h List.not_mem_nil

/-- Both ends of every edge are nodes: they are named where its hop is made. -/
theorem actFrom_joined {finish : Position} {statements : List Statement} {d : Draft}
    (h : actFrom finish {} statements = .ok d) : d.graph.Joined := by
  intro e he
  obtain ⟨hids, hends⟩ : d.graph.ids = (statements.flatMap Statement.mentioned).foldl mention [] ∧
      d.graph.ends = statements.flatMap Statement.joins := actFrom_graph finish h
  have hhop : (e.source, e.target) ∈ statements.flatMap Statement.joins :=
    hends ▸ List.mem_map_of_mem he
  obtain ⟨t, ht, hp⟩ := List.mem_flatMap.mp hhop
  obtain ⟨hsource, htarget⟩ := Statement.mem_mentioned hp
  rw [hids, mem_foldl_mention, mem_foldl_mention]
  exact ⟨Or.inr (List.mem_flatMap.mpr ⟨t, ht, hsource⟩),
    Or.inr (List.mem_flatMap.mpr ⟨t, ht, htarget⟩)⟩

theorem joined_of_read {text : String} {g : Graph Float} (h : read text = .ok g) : g.Joined := by
  obtain ⟨s, -, hread⟩ := ok_of_bind_ok h
  obtain ⟨_, _, d, -, hd, -, -, rfl⟩ := ofTokens_sound hread
  exact actFrom_joined hd

/-- **What a description says.**  A text that is read is a sentence.  The edges of its graph are the
hops of the statements in order.  Its nodes are the ids that the statements name, each once, in the
order of first mention, and each under its id; their labels are those that the statements give.
Both ends of an edge are nodes, the direction is one of the four, the gaps are finite and not
negative, and there is no geometry. -/
theorem read_says {text : String} {g : Graph Float} (h : read text = .ok g) :
    ∃ s name statements, scan text = .ok s ∧ Sentence s.tokens name statements ∧
      g.name = name ∧
      g.ends = statements.flatMap Statement.joins ∧
      g.ids = (statements.flatMap Statement.mentioned).eraseDups ∧
      (∀ u ∈ g.nodes, g.node? u.id = some u ∧ u.label = labelIn statements u.id) ∧
      g.Joined ∧
      g.direction ∈ [.topBottom, .bottomTop, .leftRight, .rightLeft] ∧
      Decimal.IsMagnitude g.nodeGap ∧ Decimal.IsMagnitude g.rankGap ∧
      g.Bare := by
  obtain ⟨s, hs, hread⟩ := ok_of_bind_ok h
  obtain ⟨name, statements, d, hsentence, hd, -, -, rfl⟩ := ofTokens_sound hread
  obtain ⟨hids, hends⟩ : d.graph.ids = (statements.flatMap Statement.mentioned).foldl mention [] ∧
      d.graph.ends = statements.flatMap Statement.joins := actFrom_graph s.finish hd
  have hplain : d.Plain := actFrom_preserves (fun _ => Draft.Plain.act) plain_empty hd
  have hlabelled : Labelled statements d := actFrom_labelled labelled_empty hd
  have hnodup : d.graph.ids.Nodup := by
    rw [hids]
    exact nodup_foldl_mention _ List.nodup_nil
  refine ⟨s, name, statements, hs, hsentence, rfl, hends, hids.trans (foldl_mention_nil _),
    fun u hu => ⟨Graph.node?_of_nodup hnodup hu, hlabelled.labels u hu⟩, actFrom_joined hd,
    hplain.spaced.direction, hplain.spaced.nodeGap, hplain.spaced.rankGap,
    ⟨hplain.bare.nodes, hplain.bare.edges, hplain.bare.size⟩⟩

/-- A description with a default label, a chain that comes back to a new id, a self-loop, labels
that are given again and a gap. -/
def labelledSample : String :=
  "digraph \x7b node [label=n]; a->b->a->a; b [label=x]; b[label=y, label=z]; ranksep=.5 \x7d"

theorem read_says_sample : ∃ g, read labelledSample = .ok g ∧
    ∃ s name statements, scan labelledSample = .ok s ∧ Sentence s.tokens name statements ∧
      g.ends = statements.flatMap Statement.joins ∧ g.Joined ∧ g.Bare := by
  obtain ⟨g, hg⟩ : ∃ g, read labelledSample = .ok g := exists_ok_of_isOk (by decide +kernel)
  obtain ⟨s, name, statements, hs, hsentence, -, hends, -, -, hjoined, -, -, -, hbare⟩ :=
    read_says hg
  exact ⟨g, hg, s, name, statements, hs, hsentence, hends, hjoined, hbare⟩

end Description

end Scrawl
