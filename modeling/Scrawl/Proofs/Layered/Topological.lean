import Mathlib
import Scrawl.Layered.Rank
import Scrawl.Proofs.Layered.Walk

/-!
# Scrawl.Proofs.Layered.Topological — the list in which arcs lead forward

`Listing` is what holds while `topological` is being made: `listed` has been put out, `queue` waits,
and `todo` are the arcs of the node listed last that have not been taken off the counts yet.

* `Listing.release`, `Listing.next`: one arc is taken off; the next node is listed.
* `topological_complete`: without cycles every node is listed once, and arcs lead forward.
-/

namespace Scrawl.Layered

open Relation

variable {n : ℕ} {arcs : List (Arc n)}

theorem get_eq_getElem {β : Type} (xs : Vector β n) (v : Fin n) : xs.get v = xs[(v : ℕ)] := rfl

theorem get_setAt (xs : Vector ℕ n) (v w : Fin n) (x : ℕ) :
    (setAt xs v x).get w = if w = v then x else xs.get w := by
  simp only [setAt, get_eq_getElem, Vector.getElem_set, Fin.ext_iff, eq_comm]

/-- The arcs into `v` that still hold it back. -/
def holding (arcs : List (Arc n)) (listed : List (Fin n)) (todo : List (Arc n)) (v : Fin n) : ℕ :=
  arcs.countP (fun a => a.target = v ∧ a.source ∉ listed) + todo.countP (·.target = v)

/-- What holds while the nodes are being listed. -/
structure Listing (arcs : List (Arc n)) (listed queue : List (Fin n)) (counts : Vector ℕ n)
    (todo : List (Arc n)) : Prop where
  nodup : (listed ++ queue).Nodup
  count : ∀ v, counts.get v = holding arcs listed todo v
  ready : ∀ v, v ∈ listed ++ queue ↔ counts.get v = 0
  forward : ∀ a ∈ arcs, a.target ∈ listed ++ queue → Before (listed ++ queue) a.source a.target

theorem source_listed {listed : List (Fin n)} {todo : List (Arc n)} {v : Fin n}
    (h : holding arcs listed todo v = 0) {a : Arc n} (ha : a ∈ arcs) (hv : a.target = v) :
    a.source ∈ listed := by
  have hc : arcs.countP (fun a => a.target = v ∧ a.source ∉ listed) = 0 := by
    unfold holding at h
    omega
  by_contra hs
  exact List.countP_eq_zero.mp hc a ha (by simp [hv, hs])

namespace Listing

variable {listed queue : List (Fin n)} {counts : Vector ℕ n} {todo : List (Arc n)}

theorem count_pos {a : Arc n} (h : Listing arcs listed queue counts (a :: todo)) :
    0 < counts.get a.target := by
  rw [h.count]
  simp only [holding, List.countP_cons, decide_true, if_true]
  omega

theorem count_release_one {a : Arc n} (h : Listing arcs listed queue counts (a :: todo))
    (v : Fin n) : (setAt counts a.target (counts.get a.target - 1)).get v =
      holding arcs listed todo v := by
  have hv := h.count v
  rw [get_setAt]
  by_cases hva : v = a.target
  · subst hva
    simp only [holding, List.countP_cons, decide_true, if_true] at hv ⊢
    omega
  · rw [if_neg hva, hv]
    simp [holding, Ne.symm hva]

/-- One arc is taken off the count of its target, which waits once nothing holds it back. -/
theorem release_one {a : Arc n} (h : Listing arcs listed queue counts (a :: todo)) :
    Listing arcs listed
      (if counts.get a.target - 1 == 0 then queue ++ [a.target] else queue)
      (setAt counts a.target (counts.get a.target - 1)) todo := by
  have hpos := h.count_pos
  have hcount := h.count_release_one
  have hnew : a.target ∉ listed ++ queue := fun hm => by
    have := (h.ready _).mp hm
    omega
  split_ifs with hz
  · have hz : counts.get a.target - 1 = 0 := by simpa using hz
    refine ⟨?_, hcount, fun v => ?_, fun b hb ht => ?_⟩
    · rw [← List.append_assoc]
      exact List.nodup_append.mpr ⟨h.nodup, by simp, by
        rintro u hu w hw rfl
        exact hnew (List.mem_singleton.mp hw ▸ hu)⟩
    · rw [get_setAt, ← List.append_assoc, List.mem_append, List.mem_singleton, h.ready]
      by_cases hva : v = a.target
      · simp [hva, hz]
      · simp [hva]
    · rw [← List.append_assoc] at ht ⊢
      rcases List.mem_append.mp ht with ht | ht
      · exact (h.forward b hb ht).append_right
      · have h0 : holding arcs listed todo b.target = 0 := by
          rw [List.mem_singleton.mp ht, ← hcount, get_setAt, if_pos rfl, hz]
        exact before_append (List.mem_append_left _ (source_listed h0 hb rfl)) ht
  · refine ⟨h.nodup, hcount, fun v => ?_, h.forward⟩
    rw [get_setAt, h.ready]
    by_cases hva : v = a.target
    · subst hva
      simp only [beq_iff_eq] at hz
      simp only [if_true]
      omega
    · simp [hva]

theorem release (h : Listing arcs listed queue counts todo) :
    Listing arcs listed (Layered.release queue counts todo).1
      (Layered.release queue counts todo).2 [] := by
  induction todo generalizing queue counts with
  | nil => exact h
  | cons a todo ih => exact ih h.release_one

/-- The first of the queue is listed. -/
theorem next {v : Fin n} (h : Listing arcs listed (v :: queue) counts []) :
    Listing arcs (listed ++ [v]) queue counts (Arc.leaving arcs v) := by
  have happ : listed ++ [v] ++ queue = listed ++ v :: queue := by simp
  have hv : v ∉ listed := fun hm =>
    (List.nodup_append.mp h.nodup).2.2 v hm v List.mem_cons_self rfl
  refine ⟨happ ▸ h.nodup, fun w => ?_, happ ▸ h.ready, happ ▸ h.forward⟩
  rw [h.count w]
  simp only [holding, List.countP_nil, Nat.add_zero, Arc.leaving, List.countP_filter]
  clear h happ
  -- an arc into `w` was held back by `v`, by another node that is not listed, or by none
  induction arcs with
  | nil => rfl
  | cons a arcs ih =>
    simp only [List.countP_cons, ih]
    by_cases hw : a.target = w <;> by_cases hs : a.source = v <;>
      by_cases hl : a.source ∈ listed <;> simp_all <;> omega

/-- Listing goes on until nothing waits. -/
theorem drain : ∀ (fuel : ℕ) (listed queue : List (Fin n)) (counts : Vector ℕ n),
    Listing arcs listed queue counts [] → n ≤ listed.length + fuel →
    ∃ counts', Listing arcs (listed ++ Layered.drain arcs fuel queue counts) [] counts' []
  | 0, listed, queue, counts, h, hf => by
    have hlen := h.nodup.length_le_card
    rw [Fintype.card_fin, List.length_append] at hlen
    obtain rfl : queue = [] := List.length_eq_zero_iff.mp (by omega)
    exact ⟨counts, by simpa [Layered.drain] using h⟩
  | fuel + 1, listed, [], counts, h, _ => ⟨counts, by simpa [Layered.drain] using h⟩
  | fuel + 1, listed, v :: queue, counts, h, hf => by
    obtain ⟨counts', hc⟩ := drain fuel (listed ++ [v]) _ _ h.next.release
      (by simp only [List.length_append, List.length_singleton]; omega)
    exact ⟨counts', by simpa [Layered.drain] using hc⟩

end Listing

theorem listing_start (arcs : List (Arc n)) :
    Listing arcs [] ((List.finRange n).filter fun v =>
        (Vector.ofFn fun v => (Arc.entering arcs v).length).get v == 0)
      (Vector.ofFn fun v => (Arc.entering arcs v).length) [] := by
  have hcount : ∀ v, (Vector.ofFn fun v => (Arc.entering arcs v).length).get v =
      holding arcs [] [] v := fun v => by
    simp only [get_eq_getElem, Vector.getElem_ofFn, Arc.entering, holding,
      List.countP_eq_length_filter, List.not_mem_nil, not_false_eq_true, and_true]
    rfl
  refine ⟨(List.nodup_finRange n).filter _, hcount, fun v => by simp, fun a ha hv => ?_⟩
  -- a node without arcs into it is the target of none
  have h0 : holding arcs [] [] a.target = 0 := by
    rw [← hcount]
    simpa using (List.mem_filter.mp hv).2
  exact absurd (source_listed h0 ha rfl) List.not_mem_nil

/-- **Without cycles every node is listed exactly once**, and every arc leads from an earlier to a
later entry. -/
theorem topological_complete (h : Acyclic arcs) :
    (topological arcs).Nodup ∧ (∀ v, v ∈ topological arcs) ∧ Forward (topological arcs) arcs := by
  obtain ⟨counts, hl⟩ := (listing_start arcs).drain n [] _ _ (by simp)
  change Listing arcs (topological arcs) [] counts [] at hl
  have hnodup := hl.nodup
  have hforward := hl.forward
  have hready := hl.ready
  rw [List.append_nil] at hnodup hforward
  simp only [List.append_nil] at hready
  have : IsTrans (Fin n) (TransGen (Joins arcs)) := ⟨fun _ _ _ => TransGen.trans⟩
  have : Std.Irrefl (TransGen (Joins arcs)) := ⟨h⟩
  -- without cycles walks into a node have a bound, which the induction goes along
  have hwf := Finite.wellFounded_of_trans_of_irrefl (TransGen (Joins arcs))
  have hall : ∀ v, v ∈ topological arcs := fun v => hwf.induction v fun v ih => by
    rw [hready, hl.count, holding, List.countP_nil, Nat.add_zero, List.countP_eq_zero]
    intro a ha hv
    simp only [decide_eq_true_eq] at hv
    exact hv.2 (ih a.source (.single ⟨a, ha, rfl, hv.1⟩))
  exact ⟨hnodup, hall, fun a ha => hforward a ha (hall _)⟩

end Scrawl.Layered
