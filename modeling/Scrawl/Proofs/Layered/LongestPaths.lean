import Scrawl.Proofs.Layered.Placement

/-!
# Scrawl.Proofs.Layered.LongestPaths — the rank of a node is the length of a longest path to it

Ranks grow along arcs, so no path to a node is longer than its rank.  And every rank but zero has
been earned: there is an arc from a node of the rank below, whose own rank does not change any more
when the arc raises its target (`Earned`).  Going back along such arcs makes a path of the full
length, and meets every rank below, so that the ranks in use have no gap.

* `earned_ranksOf`, `rank_longest`: paths and ranks.
* `exists_rank_iff`: the ranks in use.
* `map_rank_stopsOf`, `rank_of_segment`: the stops of an arc go up rank by rank.
* `plan_ranks`: all of it for every graph whose edges join its nodes.
-/

namespace Scrawl.Layered

variable {n : ℕ} {arcs : List (Arc n)}

/-! ### Every rank is earned -/

/-- Every rank but zero comes from an arc out of a node of the rank below that is done. -/
def Earned (arcs : List (Arc n)) (done : List (Fin n)) (ranks : Vector ℕ n) : Prop :=
  ∀ w, ranks.get w = 0 ∨
    ∃ a ∈ arcs, a.source ∈ done ∧ a.target = w ∧ ranks.get w = ranks.get a.source + 1

theorem Earned.step {done rest : List (Fin n)} {ranks : Vector ℕ n} {v : Fin n}
    (hl : (done ++ v :: rest).Nodup) (hf : Forward (done ++ v :: rest) arcs)
    (h : Earned arcs done ranks) :
    Earned arcs (done ++ [v]) (raise (ranks.get v) ranks (Arc.leaving arcs v)) := by
  set raised := raise (ranks.get v) ranks (Arc.leaving arcs v) with hraised
  have hkeep : ∀ u ∈ done ++ [v], raised.get u = ranks.get u :=
    fun u hu => get_raise_of_done hl hf hu
  intro w
  -- what has not been raised was earned before
  have hold : raised.get w = ranks.get w → raised.get w = 0 ∨
      ∃ a ∈ arcs, a.source ∈ done ++ [v] ∧ a.target = w ∧
        raised.get w = raised.get a.source + 1 := by
    intro hw
    rcases h w with hzero | ⟨a, ha, hs, ht, hrank⟩
    · exact Or.inl (hw.trans hzero)
    · have hs' : a.source ∈ done ++ [v] := List.mem_append_left _ hs
      exact Or.inr ⟨a, ha, hs', ht, by rw [hw, hkeep _ hs', hrank]⟩
  have hget := get_raise (ranks.get v) (Arc.leaving arcs v) ranks w
  rw [← hraised] at hget
  split_ifs at hget with hex
  · by_cases hle : ranks.get v + 1 ≤ ranks.get w
    · exact hold (hget.trans (max_eq_left hle))
    · obtain ⟨a, ha, rfl⟩ := hex
      obtain ⟨ha, hs⟩ := List.mem_filter.mp ha
      have hs' : a.source = v := eq_of_beq hs
      have hv : v ∈ done ++ [v] := List.mem_append_right _ (List.mem_singleton_self v)
      refine Or.inr ⟨a, ha, hs' ▸ hv, rfl, ?_⟩
      rw [hs', hkeep v hv, hget, max_eq_right (by omega)]
  · exact hold hget

theorem earned_ranksOf (h : Acyclic arcs) : Earned arcs (topological arcs) (ranksOf arcs) := by
  obtain ⟨hl, -, hf⟩ := topological_complete h
  refine ranksOf_induct (fun w => Or.inl ?_) fun done v rest ranks heq he =>
    he.step (heq ▸ hl) (heq ▸ hf)
  simp [get_eq_getElem]

/-! ### Paths -/

/-- The arcs make a path that ends at the node. -/
inductive PathTo (arcs : List (Arc n)) : List (Arc n) → Fin n → Prop
  | nil (v : Fin n) : PathTo arcs [] v
  | snoc (ps : List (Arc n)) (a : Arc n) : PathTo arcs ps a.source → a ∈ arcs →
      PathTo arcs (ps ++ [a]) a.target

/-- A path is no longer than the rank of its end. -/
theorem PathTo.length_le (h : Acyclic arcs) {ps : List (Arc n)} {v : Fin n}
    (hp : PathTo arcs ps v) : ps.length ≤ (ranksOf arcs).get v := by
  induction hp with
  | nil v => exact Nat.zero_le _
  | snoc ps a _ ha ih =>
    have hlt := rank_lt_rank h ha
    rw [List.length_append, List.length_singleton]
    omega

/-- A node of a rank is the end of a path of that length, and there is a node of every rank below
it. -/
theorem exists_path (h : Acyclic arcs) (r : ℕ) : ∀ v, (ranksOf arcs).get v = r →
    (∃ ps, PathTo arcs ps v ∧ ps.length = r) ∧ ∀ q ≤ r, ∃ u, (ranksOf arcs).get u = q := by
  induction r with
  | zero =>
    intro v hv
    exact ⟨⟨[], .nil v, rfl⟩, fun q hq => ⟨v, by omega⟩⟩
  | succ r ih =>
    intro v hv
    rcases earned_ranksOf h v with hzero | ⟨a, ha, -, rfl, hrank⟩
    · omega
    obtain ⟨⟨ps, hps, hlength⟩, hbelow⟩ := ih a.source (by omega)
    refine ⟨⟨ps ++ [a], .snoc ps a hps ha, by simp [hlength]⟩, fun q hq => ?_⟩
    by_cases heq : q = r + 1
    · exact ⟨a.target, by omega⟩
    · exact hbelow q (by omega)

/-- **The rank of a node is the length of a longest path to it.** -/
theorem rank_longest (h : Acyclic arcs) (v : Fin n) :
    (∃ ps, PathTo arcs ps v ∧ ps.length = (ranksOf arcs).get v) ∧
      ∀ ps, PathTo arcs ps v → ps.length ≤ (ranksOf arcs).get v :=
  ⟨(exists_path h _ v rfl).1, fun _ hps => hps.length_le h⟩

/-! ### Ranks in use -/

variable {ranks : Vector ℕ n}

/-- No stop is beyond all nodes. -/
theorem exists_node_above {s : Stop n} (hs : s ∈ allStops ranks arcs) :
    ∃ v, s.rank ranks ≤ ranks.get v := by
  rcases List.mem_append.mp hs with hs | hs
  · obtain ⟨v, -, rfl⟩ := List.mem_map.mp hs
    exact ⟨v, Nat.le_refl _⟩
  · obtain ⟨a, -, hs⟩ := List.mem_flatMap.mp hs
    obtain ⟨r, -, hr, rfl⟩ := mem_viasOf.mp hs
    exact ⟨a.target, hr.le⟩

theorem foldl_max_mem (xs : List ℕ) (a : ℕ) : xs.foldl max a = a ∨ xs.foldl max a ∈ xs := by
  induction xs generalizing a with
  | nil => exact Or.inl rfl
  | cons x xs ih =>
    rw [List.foldl_cons]
    rcases ih (max a x) with heq | hmem
    · rw [heq]
      rcases max_choice a x with h | h
      · exact Or.inl h
      · rw [h]
        exact Or.inr List.mem_cons_self
    · exact Or.inr (List.mem_cons_of_mem _ hmem)

/-- **The ranks of the nodes are those of the rows**, without a gap. -/
theorem exists_rank_iff (h : Acyclic arcs) (r : ℕ) : (∃ v, (ranksOf arcs).get v = r) ↔
    0 < n ∧ r < (rows (ranksOf arcs) arcs).length := by
  let stops := allStops (ranksOf arcs) arcs
  let last := (stops.map (Stop.rank (ranksOf arcs))).foldl max 0
  have hlength : (rows (ranksOf arcs) arcs).length = last + 1 := by simp [rows, last, stops]
  rw [hlength]
  constructor
  · rintro ⟨v, rfl⟩
    have hmem : Stop.node v ∈ stops :=
      List.mem_append_left _ (List.mem_map_of_mem (List.mem_finRange v))
    have hle := (le_foldl_max (stops.map (Stop.rank (ranksOf arcs))) 0).2 _
      (List.mem_map_of_mem hmem)
    exact ⟨v.pos, Nat.lt_succ_of_le hle⟩
  · rintro ⟨hn, hr⟩
    obtain ⟨v, hv⟩ : ∃ v, last ≤ (ranksOf arcs).get v := by
      rcases foldl_max_mem (stops.map (Stop.rank (ranksOf arcs))) 0 with hzero | hmem
      · exact ⟨⟨0, hn⟩, hzero.le.trans (Nat.zero_le _)⟩
      · obtain ⟨s, hs, heq⟩ := List.mem_map.mp hmem
        obtain ⟨v, hv⟩ := exists_node_above hs
        exact ⟨v, heq.symm.le.trans hv⟩
    exact (exists_path h _ v rfl).2 r (by omega)

/-! ### Stops and segments -/

theorem map_rank_viasOf (ranks : Vector ℕ n) (a : Arc n) :
    (viasOf ranks a).map (Stop.rank ranks) =
      List.range' (ranks.get a.source + 1) (ranks.get a.target - ranks.get a.source - 1) := by
  have hcount : ranks.get a.target - (ranks.get a.source + 1) =
      ranks.get a.target - ranks.get a.source - 1 := by omega
  rw [viasOf, List.map_map, hcount]
  exact List.map_id _

/-- Arcs of different edges have stops of their own. -/
theorem disjoint_viasOf {a b : Arc n} (h : a.edge ≠ b.edge) :
    (viasOf ranks a).Disjoint (viasOf ranks b) := by
  intro s ha hb
  obtain ⟨r, -, -, rfl⟩ := mem_viasOf.mp ha
  obtain ⟨q, -, -, heq⟩ := mem_viasOf.mp hb
  exact h (Stop.via.inj heq).1

/-- The stops of an arc go up rank by rank. -/
theorem map_rank_stopsOf {a : Arc n} (h : ranks.get a.source < ranks.get a.target) :
    (stopsOf ranks a).map (Stop.rank ranks) =
      List.range' (ranks.get a.source) (ranks.get a.target - ranks.get a.source + 1) := by
  obtain ⟨k, hk⟩ : ∃ k, ranks.get a.target = ranks.get a.source + k + 1 :=
    ⟨ranks.get a.target - ranks.get a.source - 1, by omega⟩
  have hcount : ranks.get a.target - ranks.get a.source - 1 = k := by omega
  have hall : ranks.get a.target - ranks.get a.source + 1 = k + 1 + 1 := by omega
  rw [stopsOf, List.map_cons, List.map_append, map_rank_viasOf, hcount, hall, List.range'_succ,
    List.range'_concat]
  simp only [List.map_cons, List.map_nil, Stop.rank, hk]
  congr 3
  omega

theorem mem_consecutive {β : Type} {xs : List β} {p : β × β} (h : p ∈ consecutive xs) :
    ∃ i, xs[i]? = some p.1 ∧ xs[i + 1]? = some p.2 := by
  obtain ⟨i, hi⟩ := List.mem_iff_getElem?.mp h
  rw [consecutive, List.getElem?_zip_eq_some, List.getElem?_drop, Nat.add_comm 1 i] at hi
  exact ⟨i, hi⟩

/-- **Segments join neighbouring ranks.** -/
theorem rank_of_segment (h : ∀ a ∈ arcs, ranks.get a.source < ranks.get a.target)
    {p : Stop n × Stop n} (hp : p ∈ segmentsOf ranks arcs) :
    p.2.rank ranks = p.1.rank ranks + 1 := by
  obtain ⟨a, ha, hp⟩ := List.mem_flatMap.mp hp
  obtain ⟨i, hfirst, hsecond⟩ := mem_consecutive hp
  have hranks := map_rank_stopsOf (h a ha)
  have hat : ∀ (j : ℕ) (s : Stop n), (stopsOf ranks a)[j]? = some s →
      s.rank ranks = ranks.get a.source + j := by
    intro j s hs
    have hj := congrArg (·[j]?) hranks
    simp only [List.getElem?_map, hs, Option.map_some] at hj
    obtain ⟨hlt, hval⟩ := List.getElem?_eq_some_iff.mp hj.symm
    rw [← hval, List.getElem_range']
    omega
  rw [hat i _ hfirst, hat (i + 1) _ hsecond]
  omega

/-! ### Plans -/

/-- **Nodes are ranked by longest paths and edges split at every rank they pass.**  For a graph
whose edges join its nodes, in the arcs that are ranked — one for each edge that is no loop, some
turned round, without a cycle — the rank of a node is the length of a longest path to it, and arcs
lead to larger ranks.  There is a node in every rank from zero up to the last row.  Each arc has one
stop of its own in every rank between its ends and none elsewhere, and all segments join
neighbouring ranks. -/
theorem plan_ranks {α : Type} (g : Graph α) (h : g.Joined) :
    ∃ arcs, g.arcs = .ok arcs ∧ g.Represents arcs ∧
      let p := plan arcs
      p.arcs = (arcs.filter (!·.isLoop)).map (fun a => if a.edge ∈ p.back then a.turned else a) ∧
      Acyclic p.arcs ∧
      (∀ v, (∃ ps, PathTo p.arcs ps v ∧ ps.length = p.ranks.get v) ∧
        ∀ ps, PathTo p.arcs ps v → ps.length ≤ p.ranks.get v) ∧
      (∀ a ∈ p.arcs, p.ranks.get a.source < p.ranks.get a.target) ∧
      (∀ r, (∃ v, p.ranks.get v = r) ↔ g.nodes ≠ [] ∧ r < p.rows.length) ∧
      RowsOf p.ranks p.arcs p.rows ∧
      (∀ a ∈ p.arcs,
        (viasOf p.ranks a).map (Stop.rank p.ranks) = List.range' (p.ranks.get a.source + 1)
          (p.ranks.get a.target - p.ranks.get a.source - 1) ∧
        ∀ b ∈ p.arcs, a ≠ b → (viasOf p.ranks a).Disjoint (viasOf p.ranks b)) ∧
      ∀ s ∈ segmentsOf p.ranks p.arcs, s.2.rank p.ranks = s.1.rank p.ranks + 1 := by
  obtain ⟨arcs, harcs, hrep, hturned, hac, -⟩ := plan_topological g h
  have hedge : ((plan arcs).arcs.map (·.edge)).Nodup := nodup_plan_edge hrep.nodup_edge
  have hclimb : ∀ a ∈ (plan arcs).arcs,
      (plan arcs).ranks.get a.source < (plan arcs).ranks.get a.target :=
    fun a ha => rank_lt_of_plan hrep.nodup_edge ha
  have hrows : (plan arcs).rows.length = (rows (plan arcs).ranks (plan arcs).arcs).length :=
    (order_perm _ _).length_eq
  refine ⟨arcs, harcs, hrep, hturned, hac, rank_longest hac, hclimb, fun r => ?_,
    rowsOf_order hedge, fun a ha => ⟨map_rank_viasOf _ a, fun b hb hne => ?_⟩,
    fun s hs => rank_of_segment hclimb hs⟩
  · rw [hrows, ← List.length_pos_iff]
    exact exists_rank_iff hac r
  · exact disjoint_viasOf fun heq => hne (List.inj_on_of_nodup_map hedge ha hb heq)

/-- In the knot all three nodes lie on a longest path, once two of its edges are turned round. -/
theorem plan_ranks_knot : knot.Joined ∧ ∃ arcs, knot.arcs = .ok arcs ∧
    (plan arcs).ranks.toList = [0, 1, 2] ∧
    ∃ ps, PathTo (plan arcs).arcs ps ⟨2, by decide⟩ ∧ ps.length = 2 := by
  have hj : knot.Joined := by simp [Graph.Joined, Graph.ids, knot]
  obtain ⟨arcs, harcs, -, -, -, hlongest, -⟩ := plan_ranks knot hj
  have hranks : knot.arcs.toOption.map (fun arcs => (plan arcs).ranks.toList) =
      some [0, 1, 2] := by decide +kernel
  rw [harcs] at hranks
  have hlist : (plan arcs).ranks.toList = [0, 1, 2] := Option.some.inj hranks
  obtain ⟨⟨ps, hps, hlength⟩, -⟩ := hlongest ⟨2, by decide⟩
  refine ⟨hj, arcs, harcs, hlist, ps, hps, hlength.trans ?_⟩
  obtain ⟨_, hget⟩ := List.getElem?_eq_some_iff.mp
    (show (plan arcs).ranks.toList[2]? = some 2 by rw [hlist]; rfl)
  rw [get_eq_getElem]
  simpa using hget

end Scrawl.Layered
