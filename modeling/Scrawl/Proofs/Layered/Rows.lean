import Mathlib.Data.List.Forall2
import Mathlib.Data.List.Nodup
import Mathlib.Data.List.Perm.Basic
import Scrawl.Layered.Order
import Scrawl.Proofs.Layered.Arcs

/-!
# Scrawl.Proofs.Layered.Rows — every stop stands in the row of its rank, once

Sorting by medians only moves the members of a row, so after all sweeps every row is a permutation
of the stops of its rank (`order_perm`).  Stops differ from each other: vias by their edge or their
rank (`nodup_allStops`).  Hence a stop stands in one row, at one place (`rowsOf_order`).
-/

namespace Scrawl.Layered

variable {n : ℕ}

/-! ### Sweeps permute the rows -/

/-- The same rows up to the order within each. -/
def RowsPerm {β : Type} (rows rows' : List (List β)) : Prop := List.Forall₂ List.Perm rows rows'

theorem RowsPerm.trans {β : Type} : ∀ {a b c : List (List β)}, RowsPerm a b → RowsPerm b c →
    RowsPerm a c
  | _, _, _, .nil, .nil => .nil
  | _, _, _, .cons h hs, .cons h' hs' => .cons (h.trans h') (RowsPerm.trans hs hs')

theorem RowsPerm.reverse {β : Type} {a b : List (List β)} (h : RowsPerm a b) :
    RowsPerm a.reverse b.reverse :=
  List.forall₂_reverse_iff.mpr h

section Median

variable {β : Type}

theorem map_snd_keyed {κ : Type} (key : β → κ) (members : List β) :
    (members.map fun v => (key v, v)).map (·.2) = members :=
  List.map_map.trans (List.map_id members)

variable [DecidableEq β]

theorem orderByMedian_perm (members fixed : List β) (neighbours : β → List β) :
    List.Perm (orderByMedian members fixed neighbours) members := by
  have hsort := (List.mergeSort_perm
    (members.map fun v => (sortKey members fixed neighbours v, v)) fun a b => keyLE a.1 b.1).map
      (·.2)
  rwa [map_snd_keyed] at hsort

/-- Members whose keys are in order already stay where they are. -/
theorem orderByMedian_of_sorted {members fixed : List β} {neighbours : β → List β}
    (h : members.Pairwise fun u v =>
      keyLE (sortKey members fixed neighbours u) (sortKey members fixed neighbours v)) :
    orderByMedian members fixed neighbours = members := by
  have hkeyed : (members.map fun v => (sortKey members fixed neighbours v, v)).Pairwise
      fun a b => keyLE a.1 b.1 := List.pairwise_map.mpr h
  rw [orderByMedian, List.mergeSort_of_pairwise hkeyed, map_snd_keyed]

end Median

theorem sweep_perm (neighbours : Stop n → List (Stop n)) :
    ∀ (fixed : List (Stop n)) (rows : List (List (Stop n))),
      RowsPerm (sweep neighbours fixed rows) rows
  | _, [] => .nil
  | fixed, row :: rest =>
    .cons (orderByMedian_perm row fixed neighbours) (sweep_perm neighbours _ rest)

theorem sweepFrom_perm (neighbours : Stop n → List (Stop n)) (rows : List (List (Stop n))) :
    RowsPerm (sweepFrom neighbours rows) rows := by
  cases rows with
  | nil => exact .nil
  | cons row rest => exact .cons (List.Perm.refl row) (sweep_perm neighbours row rest)

theorem sweepBoth_perm (segments : List (Stop n × Stop n)) (rows : List (List (Stop n))) :
    RowsPerm (sweepBoth segments rows) rows := by
  have h := (sweepFrom_perm (after segments) (sweepFrom (before segments) rows).reverse).reverse
  rw [List.reverse_reverse] at h
  exact h.trans (sweepFrom_perm (before segments) rows)

/-- **The sweeps only move stops within their rows.** -/
theorem order_perm (segments : List (Stop n × Stop n)) (rows : List (List (Stop n))) :
    RowsPerm (order segments rows) rows :=
  (sweepBoth_perm segments _).trans (sweepBoth_perm segments rows)

/-! ### Stops differ from each other -/

variable {ranks : Vector ℕ n} {arcs : List (Arc n)}

theorem mem_viasOf {a : Arc n} {s : Stop n} :
    s ∈ viasOf ranks a ↔
      ∃ r, ranks.get a.source < r ∧ r < ranks.get a.target ∧ s = .via a.edge r := by
  simp only [viasOf, List.mem_map, List.mem_range'_1]
  constructor
  · rintro ⟨r, hr, rfl⟩
    exact ⟨r, by omega, by omega, rfl⟩
  · rintro ⟨r, h1, h2, rfl⟩
    exact ⟨r, by omega, rfl⟩

theorem nodup_allStops (hd : (arcs.map (·.edge)).Nodup) : (allStops ranks arcs).Nodup := by
  refine List.nodup_append.mpr ⟨List.Nodup.map ?_ (List.nodup_finRange n), ?_, ?_⟩
  · exact fun u v h => Stop.node.inj h
  · refine List.nodup_flatMap.mpr ⟨fun a _ => ?_, ?_⟩
    · exact List.Nodup.map (fun r r' h => (Stop.via.inj h).2) (List.nodup_range' ..)
    · refine (List.pairwise_map.mp hd).imp fun {a b} hab => ?_
      intro s ha hb
      obtain ⟨r, -, -, rfl⟩ := mem_viasOf.mp ha
      obtain ⟨r', -, -, h⟩ := mem_viasOf.mp hb
      exact hab (Stop.via.inj h).1
  · rintro s hs t ht rfl
    obtain ⟨v, -, rfl⟩ := List.mem_map.mp hs
    obtain ⟨a, -, ht⟩ := List.mem_flatMap.mp ht
    obtain ⟨r, -, -, h⟩ := mem_viasOf.mp ht
    cases h

/-! ### Rows -/

/-- The rows of a plan of arcs with these ranks: each holds the stops of its rank. -/
structure RowsOf (ranks : Vector ℕ n) (arcs : List (Arc n)) (rows : List (List (Stop n))) :
    Prop where
  mem_row : ∀ (r : ℕ) (hr : r < rows.length) (s : Stop n),
    s ∈ rows[r] ↔ s ∈ allStops ranks arcs ∧ s.rank ranks = r
  rank_lt : ∀ s ∈ allStops ranks arcs, s.rank ranks < rows.length
  nodup : rows.flatten.Nodup

theorem le_foldl_max : ∀ (xs : List ℕ) (a : ℕ), a ≤ xs.foldl max a ∧ ∀ x ∈ xs, x ≤ xs.foldl max a
  | [], a => ⟨Nat.le_refl a, by simp⟩
  | x :: xs, a => by
    obtain ⟨h, hs⟩ := le_foldl_max xs (max a x)
    refine ⟨Nat.le_trans (Nat.le_max_left a x) h, fun y hy => ?_⟩
    rcases List.mem_cons.mp hy with rfl | hy
    · exact Nat.le_trans (Nat.le_max_right a y) h
    · exact hs y hy

theorem rowsOf_rows (hd : (arcs.map (·.edge)).Nodup) : RowsOf ranks arcs (rows ranks arcs) where
  mem_row r hr s := by simp [rows]
  rank_lt s hs := by
    have := (le_foldl_max ((allStops ranks arcs).map (Stop.rank ranks)) 0).2 _
      (List.mem_map_of_mem hs)
    simp only [rows, List.length_map, List.length_range]
    omega
  nodup := by
    refine List.nodup_flatten.mpr ⟨fun row hrow => ?_, ?_⟩
    · obtain ⟨r, -, rfl⟩ := List.mem_map.mp hrow
      exact (nodup_allStops hd).filter _
    · refine List.pairwise_map.mpr (List.nodup_range.imp fun {r r'} hne s hs hs' => ?_)
      have h := eq_of_beq (List.mem_filter.mp hs).2
      have h' := eq_of_beq (List.mem_filter.mp hs').2
      exact hne (h.symm.trans h')

theorem RowsOf.of_perm {rows rows' : List (List (Stop n))} (h : RowsOf ranks arcs rows)
    (hp : RowsPerm rows' rows) : RowsOf ranks arcs rows' := by
  have hlen : rows'.length = rows.length := List.Forall₂.length_eq hp
  refine ⟨fun r hr s => ?_, hlen ▸ h.rank_lt, (List.Perm.flatten_congr hp).nodup_iff.mpr h.nodup⟩
  have hrow : List.Perm rows'[r] rows[r] := by
    simpa using List.Forall₂.get hp hr (hlen ▸ hr)
  rw [hrow.mem_iff]
  exact h.mem_row r (hlen ▸ hr) s

/-- **Every stop stands in the row of its rank**, and nowhere else, in the final order too. -/
theorem rowsOf_order (hd : (arcs.map (·.edge)).Nodup) :
    RowsOf ranks arcs (order (segmentsOf ranks arcs) (rows ranks arcs)) :=
  (rowsOf_rows hd).of_perm (order_perm _ _)

end Scrawl.Layered
