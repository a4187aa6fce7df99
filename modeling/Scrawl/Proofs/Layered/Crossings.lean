import Mathlib
import Scrawl.Proofs.Layered.Rows
import Scrawl.Proofs.Layered.Walk

/-!
# Scrawl.Proofs.Layered.Crossings — sorting by medians finds the orders without crossings

A row is drawn beside a row that stays fixed, with a segment from each member to each of its
neighbours there.  If some order of the members lets no two segments cross, then any two members
have neighbours on two sides of a common position at most, so their medians are in the order of all
their neighbours, and they are equal only where both members have that one neighbour.

* `exists_below_iff`: a median has positions on both sides, or none.
* `ahead_of_median_le`: members whose segments can be kept apart are apart in the order of their
  medians.
* `orderByMedian_crossingFree`: the order that is found is one without crossings if there is any.
-/

namespace Scrawl.Layered

/-! ### Medians -/

section Median

variable {positions : List ℕ} {k : ℕ}

theorem exists_doubledMedian (h : positions ≠ []) : ∃ k, doubledMedian? positions = some k := by
  have hlength : 0 < positions.length := List.length_pos_of_ne_nil h
  simp only [doubledMedian?]
  by_cases hodd : positions.length % 2 = 1
  · have hmid : positions.length / 2 < positions.length := by omega
    exact ⟨_, by rw [if_pos (by simpa using hodd), List.getElem?_eq_getElem hmid]; rfl⟩
  · have hmid : positions.length / 2 < positions.length := by omega
    have hless : positions.length / 2 - 1 < positions.length := by omega
    exact ⟨_, by rw [if_neg (by simpa using hodd), List.getElem?_eq_getElem hmid,
      List.getElem?_eq_getElem hless]⟩

/-- **A median of increasing positions has positions on both sides, or on neither.** -/
theorem exists_below_iff (hsorted : positions.Pairwise (· < ·))
    (hk : doubledMedian? positions = some k) :
    (∃ p ∈ positions, 2 * p < k) ↔ ∃ p ∈ positions, k < 2 * p := by
  have hlt : ∀ (i j : ℕ) (hi : i < positions.length) (hj : j < positions.length), i < j →
      positions[i] < positions[j] := fun i j hi hj hij => hsorted.rel_get_of_lt (a := ⟨i, hi⟩)
        (b := ⟨j, hj⟩) hij
  simp only [doubledMedian?] at hk
  split_ifs at hk with hodd
  · have hodd : positions.length % 2 = 1 := by simpa using hodd
    obtain ⟨m, hm, rfl⟩ := Option.map_eq_some_iff.mp hk
    obtain ⟨hmid, rfl⟩ := List.getElem?_eq_some_iff.mp hm
    -- the first and the last position are the middle one only if there is no other
    by_cases hone : positions.length = 1
    · have hself : ∀ p ∈ positions, p = positions[positions.length / 2] := by
        intro p hp
        obtain ⟨i, hi, rfl⟩ := List.getElem_of_mem hp
        congr 1
        omega
      constructor
      · rintro ⟨p, hp, h⟩
        have := hself p hp
        omega
      · rintro ⟨p, hp, h⟩
        have := hself p hp
        omega
    · have hfirst := hlt 0 (positions.length / 2) (by omega) hmid (by omega)
      have hlast := hlt (positions.length / 2) (positions.length - 1) hmid (by omega) (by omega)
      exact iff_of_true ⟨positions[0], List.getElem_mem _, by omega⟩
        ⟨positions[positions.length - 1], List.getElem_mem _, by omega⟩
  · have heven : ¬ positions.length % 2 = 1 := by simpa using hodd
    split at hk
    · next a b ha hb =>
      obtain ⟨hless, rfl⟩ := List.getElem?_eq_some_iff.mp ha
      obtain ⟨hmid, rfl⟩ := List.getElem?_eq_some_iff.mp hb
      cases hk
      have hnext := hlt (positions.length / 2 - 1) (positions.length / 2) hless hmid (by omega)
      exact iff_of_true ⟨positions[positions.length / 2 - 1], List.getElem_mem _, by omega⟩
        ⟨positions[positions.length / 2], List.getElem_mem _, by omega⟩
    · cases hk

theorem ne_nil_of_median (hk : doubledMedian? positions = some k) : positions ≠ [] := by
  rintro rfl
  cases hk

theorem exists_le_median (hsorted : positions.Pairwise (· < ·))
    (hk : doubledMedian? positions = some k) : ∃ p ∈ positions, 2 * p ≤ k := by
  by_contra! hall
  obtain ⟨p, hp⟩ := List.exists_mem_of_ne_nil _ (ne_nil_of_median hk)
  obtain ⟨q, hq, hless⟩ := (exists_below_iff hsorted hk).mpr ⟨p, hp, hall p hp⟩
  exact absurd hless (hall q hq).not_gt

theorem exists_median_le (hsorted : positions.Pairwise (· < ·))
    (hk : doubledMedian? positions = some k) : ∃ p ∈ positions, k ≤ 2 * p := by
  by_contra! hall
  obtain ⟨p, hp⟩ := List.exists_mem_of_ne_nil _ (ne_nil_of_median hk)
  obtain ⟨q, hq, hless⟩ := (exists_below_iff hsorted hk).mp ⟨p, hp, hall p hp⟩
  exact absurd hless (hall q hq).not_gt

/-- Positions that can be kept apart from others are apart in the order of the medians. -/
theorem ahead_of_median_le {others : List ℕ} {m : ℕ} (hsorted : positions.Pairwise (· < ·))
    (hsorted' : others.Pairwise (· < ·)) (hk : doubledMedian? positions = some k)
    (hm : doubledMedian? others = some m) (hkm : k ≤ m)
    (hapart : (∀ p ∈ positions, ∀ q ∈ others, p ≤ q) ∨ ∀ q ∈ others, ∀ p ∈ positions, q ≤ p) :
    ∀ p ∈ positions, ∀ q ∈ others, p ≤ q := by
  rcases hapart with hahead | hbehind
  · exact hahead
  · -- both medians are the one position that the two have in common
    obtain ⟨p₀, hp₀, hlow⟩ := exists_le_median hsorted hk
    obtain ⟨q₀, hq₀, hhigh⟩ := exists_median_le hsorted' hm
    have hmeet := hbehind q₀ hq₀ p₀ hp₀
    intro p hp q hq
    by_contra! hqp
    have hp' : ¬ k < 2 * p := by
      intro hless
      obtain ⟨r, hr, hbelow⟩ := (exists_below_iff hsorted hk).mpr ⟨p, hp, hless⟩
      have := hbehind q₀ hq₀ r hr
      omega
    have hq' : ¬ 2 * q < m := by
      intro hless
      obtain ⟨r, hr, habove⟩ := (exists_below_iff hsorted' hm).mp ⟨q, hq, hless⟩
      have := hbehind r hr p₀ hp₀
      omega
    omega

end Median

theorem keyLE_iff {a b : ℕ × ℕ} : keyLE a b ↔ a.1 < b.1 ∨ a.1 = b.1 ∧ a.2 ≤ b.2 := by
  simp [keyLE]

/-- What is sorted by its keys is in the order of their first parts. -/
theorem pairwise_mergeSort_keyLE {γ : Type} (l : List ((ℕ × ℕ) × γ)) :
    (l.mergeSort fun a b => keyLE a.1 b.1).Pairwise fun a b => a.1.1 ≤ b.1.1 := by
  have h := @List.pairwise_mergeSort _ (fun a b : (ℕ × ℕ) × γ => keyLE a.1 b.1)
    (fun a b c hab hbc => by rw [keyLE_iff] at *; omega)
    (fun a b => by rw [Bool.or_eq_true, keyLE_iff, keyLE_iff]; omega) l
  exact h.imp fun hab => by rw [keyLE_iff] at hab; omega

/-! ### Positions in the fixed row -/

section Rows

variable {β : Type} [DecidableEq β] {fixed : List β} {neighbours : β → List β}

theorem before_iff_lt {u v : β} {i j : ℕ} (hfixed : fixed.Nodup)
    (hu : fixed.idxOf? u = some i) (hv : fixed.idxOf? v = some j) : Before fixed u v ↔ i < j := by
  induction fixed generalizing i j with
  | nil => cases hu
  | cons x rest ih =>
    obtain ⟨hx, hrest⟩ := List.nodup_cons.mp hfixed
    have hmem : ∀ {w : β} {m : ℕ}, rest.idxOf? w = some m → w ∈ rest := by
      intro w m hm
      exact List.isSome_idxOf?.mp (by rw [hm]; rfl)
    rw [before_cons]
    rw [List.idxOf?_cons] at hu hv
    by_cases hxu : x = u
    · subst hxu
      by_cases hxv : x = v
      · subst hxv
        cases hu.symm.trans hv
        exact iff_of_false (fun h => h.elim (fun h => hx h.mem_left) fun h => hx h.2) (lt_irrefl i)
      · rw [if_neg (by simpa using hxv)] at hv
        obtain ⟨j, hj, rfl⟩ := Option.map_eq_some_iff.mp hv
        rw [if_pos (by simp)] at hu
        cases hu
        exact iff_of_true (Or.inr ⟨rfl, hmem hj⟩) (Nat.succ_pos j)
    · rw [if_neg (by simpa using hxu)] at hu
      obtain ⟨i, hi, rfl⟩ := Option.map_eq_some_iff.mp hu
      by_cases hxv : x = v
      · subst hxv
        rw [if_pos (by simp)] at hv
        cases hv
        exact iff_of_false (fun h => h.elim (fun h => hx h.mem_right) fun h => hxu h.1.symm)
          (Nat.not_lt_zero _)
      · rw [if_neg (by simpa using hxv)] at hv
        obtain ⟨j, hj, rfl⟩ := Option.map_eq_some_iff.mp hv
        have hkeep := ih hrest hi hj
        constructor
        · rintro (h | ⟨rfl, -⟩)
          · exact Nat.succ_lt_succ (hkeep.mp h)
          · exact absurd rfl hxu
        · exact fun h => Or.inl (hkeep.mpr (Nat.succ_lt_succ_iff.mp h))

theorem mem_positionsIn {ns : List β} {p : ℕ} :
    p ∈ positionsIn fixed ns ↔ ∃ a ∈ ns, fixed.idxOf? a = some p := by
  simp [positionsIn, List.mem_mergeSort]

theorem positionsIn_sorted {ns : List β} (h : ns.Nodup) :
    (positionsIn fixed ns).Pairwise (· < ·) := by
  have hsorted : (positionsIn fixed ns).Pairwise (· ≤ ·) := List.pairwise_mergeSort' _ _
  have hnodup : (positionsIn fixed ns).Nodup := by
    refine (List.mergeSort_perm _ _).nodup_iff.mpr (h.filterMap ?_)
    intro a a' p ha ha'
    obtain ⟨hp, rfl, -⟩ := List.idxOf?_eq_some_iff.mp ha
    obtain ⟨-, rfl, -⟩ := List.idxOf?_eq_some_iff.mp ha'
    rfl
  exact (hsorted.and hnodup).imp fun ⟨hle, hne⟩ => lt_of_le_of_ne hle hne

/-- No two segments from members of the row to their neighbours in the fixed row cross: the
neighbours of an earlier member do not stand behind those of a later one. -/
def CrossingFree (fixed : List β) (neighbours : β → List β) (row : List β) : Prop :=
  ∀ u v, Before row u v → ∀ a ∈ neighbours u, ∀ b ∈ neighbours v, ¬ Before fixed b a

omit [DecidableEq β] in
theorem crossingFree_iff {row : List β} : CrossingFree fixed neighbours row ↔
    row.Pairwise fun u v => ∀ a ∈ neighbours u, ∀ b ∈ neighbours v, ¬ Before fixed b a :=
  ⟨fun h => List.pairwise_iff_forall_sublist.mpr fun {_ _} => h _ _,
    fun h _ _ huv => List.pairwise_iff_forall_sublist.mp h huv⟩

/-- Two members have no crossing if the positions of the first are not behind those of the
second. -/
theorem not_before_iff (hfixed : fixed.Nodup) {ns ms : List β} (hns : ns ⊆ fixed)
    (hms : ms ⊆ fixed) : (∀ a ∈ ns, ∀ b ∈ ms, ¬ Before fixed b a) ↔
      ∀ p ∈ positionsIn fixed ns, ∀ q ∈ positionsIn fixed ms, p ≤ q := by
  have hplace : ∀ a ∈ fixed, ∃ p, fixed.idxOf? a = some p := fun a ha =>
    Option.isSome_iff_exists.mp (List.isSome_idxOf?.mpr ha)
  constructor
  · intro h p hp q hq
    obtain ⟨a, ha, hpa⟩ := mem_positionsIn.mp hp
    obtain ⟨b, hb, hqb⟩ := mem_positionsIn.mp hq
    exact Nat.not_lt.mp (mt (before_iff_lt hfixed hqb hpa).mpr (h a ha b hb))
  · intro h a ha b hb hba
    obtain ⟨p, hp⟩ := hplace a (hns ha)
    obtain ⟨q, hq⟩ := hplace b (hms hb)
    have hle := h p (mem_positionsIn.mpr ⟨a, ha, hp⟩) q (mem_positionsIn.mpr ⟨b, hb, hq⟩)
    exact absurd ((before_iff_lt hfixed hq hp).mp hba) hle.not_gt

/-- The members are sorted by the medians of those that have one. -/
theorem orderByMedian_sorted (members fixed : List β) (neighbours : β → List β) :
    (orderByMedian members fixed neighbours).Pairwise fun u v =>
      ∀ k ∈ doubledMedian? (positionsIn fixed (neighbours u)),
        ∀ m ∈ doubledMedian? (positionsIn fixed (neighbours v)), k ≤ m := by
  set keyed := members.map fun v => (sortKey members fixed neighbours v, v)
  have hkey : ∀ e ∈ keyed, ∀ k ∈ doubledMedian? (positionsIn fixed (neighbours e.2)),
      e.1.1 = k := by
    intro e he k hk
    obtain ⟨v, -, rfl⟩ := List.mem_map.mp he
    simp [sortKey, Option.mem_def.mp hk]
  refine List.pairwise_map.mpr ((pairwise_mergeSort_keyLE keyed).imp_of_mem ?_)
  intro d e hd he hle k hk m hm
  rw [← hkey d (List.mem_mergeSort.mp hd) k hk, ← hkey e (List.mem_mergeSort.mp he) m hm]
  exact hle

/-- **An order without crossings is found if there is one.**  Let the fixed row have no repetitions,
and let the neighbours of each member be pairwise different members of the fixed row.  Sorting by
medians permutes the members, and if the segments of some order of the members do not cross, those
of the order that is found do not either. -/
theorem orderByMedian_crossingFree {members : List β} (hfixed : fixed.Nodup)
    (hneighbours : ∀ v ∈ members, (neighbours v).Nodup ∧ neighbours v ⊆ fixed) :
    List.Perm (orderByMedian members fixed neighbours) members ∧
      ∀ row, List.Perm row members → CrossingFree fixed neighbours row →
        CrossingFree fixed neighbours (orderByMedian members fixed neighbours) := by
  have hperm := orderByMedian_perm members fixed neighbours
  refine ⟨hperm, fun row hrow hfree => ?_⟩
  -- which of two members stands first in the row is lost in another order of the members
  have heither : (orderByMedian members fixed neighbours).Pairwise fun u v =>
      (∀ a ∈ neighbours u, ∀ b ∈ neighbours v, ¬ Before fixed b a) ∨
        ∀ b ∈ neighbours v, ∀ a ∈ neighbours u, ¬ Before fixed a b :=
    ((hrow.trans hperm.symm).pairwise_iff fun h => h.symm).mp
      ((crossingFree_iff.mp hfree).imp Or.inl)
  refine crossingFree_iff.mpr ((heither.and (orderByMedian_sorted _ _ _)).imp_of_mem ?_)
  rintro u v hu hv ⟨hapart, hmedians⟩
  obtain ⟨hnodup, hsubset⟩ := hneighbours u (hperm.mem_iff.mp hu)
  obtain ⟨hnodup', hsubset'⟩ := hneighbours v (hperm.mem_iff.mp hv)
  rw [not_before_iff hfixed hsubset hsubset', not_before_iff hfixed hsubset' hsubset] at hapart
  rw [not_before_iff hfixed hsubset hsubset']
  intro p hp q hq
  obtain ⟨k, hk⟩ := exists_doubledMedian (List.ne_nil_of_mem hp)
  obtain ⟨m, hm⟩ := exists_doubledMedian (List.ne_nil_of_mem hq)
  exact ahead_of_median_le (positionsIn_sorted hnodup) (positionsIn_sorted hnodup') hk hm
    (hmedians k hk m hm) hapart p hp q hq

end Rows

/-- Five members, one of them without neighbours, beside a row of four. -/
theorem orderByMedian_crossingFree_fan :
    let neighbours : ℕ → List ℕ := fun v => [[12, 11], [11], [], [10, 11], [13, 12]].getD v []
    CrossingFree [10, 11, 12, 13] neighbours [2, 3, 1, 0, 4] ∧
      CrossingFree [10, 11, 12, 13] neighbours
        (orderByMedian [4, 0, 1, 2, 3] [10, 11, 12, 13] neighbours) := by
  intro neighbours
  have hfree : CrossingFree [10, 11, 12, 13] neighbours [2, 3, 1, 0, 4] :=
    crossingFree_iff.mpr (by unfold Before; decide)
  exact ⟨hfree, (orderByMedian_crossingFree (by decide) (by decide)).2 _ (by decide) hfree⟩

end Scrawl.Layered
