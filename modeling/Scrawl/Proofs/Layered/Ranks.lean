import Scrawl.Proofs.Layered.Topological

/-!
# Scrawl.Proofs.Layered.Ranks — ranks grow along arcs

`ranksOf` goes through the topological list and raises the targets of every node above it.  When a
node is reached its own rank is final, because all arcs into it come from entries before it; so what
has been arranged for the arcs of the entries before stays arranged.
-/

namespace Scrawl.Layered

variable {n : ℕ} {arcs : List (Arc n)}

/-- Raising takes the targets of the arcs up to one above the rank and leaves the rest. -/
theorem get_raise (rank : ℕ) (arcs : List (Arc n)) (ranks : Vector ℕ n) (w : Fin n) :
    (raise rank ranks arcs).get w =
      if ∃ a ∈ arcs, a.target = w then max (ranks.get w) (rank + 1) else ranks.get w := by
  induction arcs generalizing ranks with
  | nil => simp [raise]
  | cons a arcs ih =>
    have hstep : raise rank ranks (a :: arcs) = raise rank
        (if ranks.get a.target < rank + 1 then setAt ranks a.target (rank + 1) else ranks) arcs :=
      rfl
    have hget : (if ranks.get a.target < rank + 1 then setAt ranks a.target (rank + 1)
        else ranks).get w = if a.target = w then max (ranks.get w) (rank + 1) else ranks.get w := by
      by_cases hw : a.target = w
      · subst hw
        rw [if_pos rfl]
        split_ifs with h
        · rw [get_setAt, if_pos rfl]
          omega
        · omega
      · split_ifs
        · rw [get_setAt, if_neg (Ne.symm hw)]
        · rfl
    rw [hstep, ih, hget]
    by_cases hw : a.target = w <;> simp [hw]

/-- What holds of the ranks at first and is kept as the next node of the topological list is looked
at holds in the end. -/
theorem ranksOf_induct {motive : List (Fin n) → Vector ℕ n → Prop}
    (hstart : motive [] (Vector.replicate n 0))
    (hstep : ∀ done v rest ranks, topological arcs = done ++ v :: rest → motive done ranks →
      motive (done ++ [v]) (raise (ranks.get v) ranks (Arc.leaving arcs v))) :
    motive (topological arcs) (ranksOf arcs) := by
  have hrun : ∀ (rest done : List (Fin n)) (ranks : Vector ℕ n),
      topological arcs = done ++ rest → motive done ranks → motive (topological arcs)
        (rest.foldl (fun ranks v => raise (ranks.get v) ranks (Arc.leaving arcs v)) ranks) := by
    intro rest
    induction rest with
    | nil =>
      intro done ranks hl h
      rwa [hl, List.append_nil]
    | cons v rest ih =>
      intro done ranks hl h
      exact ih (done ++ [v]) _ (by simpa using hl) (hstep done v rest ranks hl h)
  exact hrun (topological arcs) [] _ rfl hstart

/-- The arcs that leave a node raise no entry up to it, because none leads back. -/
theorem get_raise_of_done {done rest : List (Fin n)} {ranks : Vector ℕ n} {u v : Fin n}
    (hl : (done ++ v :: rest).Nodup) (hf : Forward (done ++ v :: rest) arcs)
    (hu : u ∈ done ++ [v]) :
    (raise (ranks.get v) ranks (Arc.leaving arcs v)).get u = ranks.get u := by
  rw [get_raise, if_neg]
  rintro ⟨b, hb, rfl⟩
  obtain ⟨hb, hv⟩ := List.mem_filter.mp hb
  have hback : Before (done ++ v :: rest) v b.target := by
    have := hf b hb
    rwa [eq_of_beq hv] at this
  rcases List.mem_append.mp hu with hu | hu
  · exact not_before_self hl (hback.trans hl (before_append hu List.mem_cons_self))
  · rw [List.mem_singleton.mp hu] at hback
    exact not_before_self hl hback

/-- What holds of the ranks once the arcs that leave the nodes in `done` have been looked at. -/
def Climbs (arcs : List (Arc n)) (done : List (Fin n)) (ranks : Vector ℕ n) : Prop :=
  ∀ a ∈ arcs, a.source ∈ done → ranks.get a.source < ranks.get a.target

theorem Climbs.step {done rest : List (Fin n)} {ranks : Vector ℕ n} {v : Fin n}
    (hl : (done ++ v :: rest).Nodup) (hf : Forward (done ++ v :: rest) arcs)
    (h : Climbs arcs done ranks) :
    Climbs arcs (done ++ [v]) (raise (ranks.get v) ranks (Arc.leaving arcs v)) := by
  intro a ha hs
  rw [get_raise_of_done hl hf hs, get_raise]
  rcases List.mem_append.mp hs with hs | hs
  · have := h a ha hs
    split_ifs <;> omega
  · have hv := List.mem_singleton.mp hs
    rw [if_pos ⟨a, List.mem_filter.mpr ⟨ha, by simp [hv]⟩, rfl⟩, hv]
    omega

/-- **Ranks grow along arcs** that have no cycle. -/
theorem rank_lt_rank (h : Acyclic arcs) {a : Arc n} (ha : a ∈ arcs) :
    (ranksOf arcs).get a.source < (ranksOf arcs).get a.target := by
  obtain ⟨hl, hall, hf⟩ := topological_complete h
  have hclimbs : Climbs arcs (topological arcs) (ranksOf arcs) :=
    ranksOf_induct (fun a _ hs => absurd hs List.not_mem_nil)
      fun done v rest ranks heq hc => hc.step (heq ▸ hl) (heq ▸ hf)
  exact hclimbs a ha (hall _)

end Scrawl.Layered
