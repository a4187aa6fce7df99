import Mathlib.Data.List.GetD
import Scrawl.Proofs.Layered.Packing
import Scrawl.Proofs.Layered.Rows

/-!
# Scrawl.Proofs.Layered.Seating — stops keep their distance

What packing makes of rows that hold every stop once: a position across for every stop and a
position along for every rank, such that the members of a rank are a node gap apart and ranks a rank
gap.
-/

namespace Scrawl.Layered

variable {n : ℕ} {ranks : Vector ℕ n} {arcs : List (Arc n)}

/-- The position `x` across of every stop and `y` along of every rank, as packing gives them: stops
of one rank are a node gap apart, and those of different ranks a rank gap. -/
structure Seating (ranks : Vector ℕ n) (arcs : List (Arc n)) (s : Spacing ℝ)
    (extent : Stop n → Extent ℝ) (centers : List (Stop n × Point ℝ)) (x : Stop n → ℝ) (y : ℕ → ℝ) :
    Prop where
  lookup : ∀ t ∈ allStops ranks arcs,
    centers.lookup t = some (orient s.direction (x t) (y (t.rank ranks)))
  apart : ∀ t ∈ allStops ranks arcs, ∀ u ∈ allStops ranks arcs, t ≠ u →
    t.rank ranks = u.rank ranks →
    x t + (extent t).across / 2 + s.nodeGap ≤ x u - (extent u).across / 2 ∨
      x u + (extent u).across / 2 + s.nodeGap ≤ x t - (extent t).across / 2
  layered : ∀ t ∈ allStops ranks arcs, ∀ u ∈ allStops ranks arcs, t.rank ranks < u.rank ranks →
    y (t.rank ranks) + (extent t).along / 2 + s.rankGap ≤
      y (u.rank ranks) - (extent u).along / 2

/-! ### Distances in rows and between bands -/

section Distances

variable (s : Spacing ℝ) {extent : Stop n → Extent ℝ}

theorem leftAt_gap (widest : ℝ) (row : List (Stop n)) (hgap : 0 ≤ s.nodeGap)
    (hext : ∀ t, 0 ≤ (extent t).across) {i j : ℕ} (hij : i < j) (hj : j < row.length) :
    leftAt s extent widest row i + (extent row[i]).across + s.nodeGap ≤
      leftAt s extent widest row j := by
  have h := offset_add_le (f := fun t => (extent t).across + s.nodeGap) (l := row)
    (fun t _ => add_nonneg (hext t) hgap) hij hj.le
  simp only [leftAt]
  linarith

theorem bandOf_nonneg (row : List (Stop n)) (hext : ∀ t, 0 ≤ (extent t).along) :
    0 ≤ bandOf (row.map extent) :=
  Scalar.largestOrZero_nonneg fun b hb => by
    simp only [List.map_map, List.mem_map, Function.comp_apply] at hb
    obtain ⟨t, -, rfl⟩ := hb
    exact hext t

theorem along_le_bandOf {row : List (Stop n)} {t : Stop n} (ht : t ∈ row) :
    (extent t).along ≤ bandOf (row.map extent) :=
  Scalar.le_largestOrZero (List.mem_map_of_mem (List.mem_map_of_mem ht))

theorem bandAt_gap (rows : List (List (Stop n))) (hgap : 0 ≤ s.rankGap)
    (hext : ∀ t, 0 ≤ (extent t).along) {q r : ℕ} (hqr : q < r) (hr : r < rows.length) :
    bandAt s extent rows q + bandOf (rows[q].map extent) + s.rankGap ≤ bandAt s extent rows r := by
  have h := offset_add_le (f := fun row => bandOf (row.map extent) + s.rankGap) (l := rows)
    (fun row _ => add_nonneg (bandOf_nonneg row hext) hgap) hqr hr.le
  simp only [bandAt]
  linarith

end Distances

/-! ### The seating of rows -/

/-- **Packing seats the stops** of rows that hold each stop once, on the middle lines of the bands.
-/
theorem exists_seating {rows : List (List (Stop n))} (h : RowsOf ranks arcs rows) (s : Spacing ℝ)
    (sizes : Vector (ℝ × ℝ) n) (hnode : 0 ≤ s.nodeGap) (hrank : 0 ≤ s.rankGap)
    (hacross : ∀ t, 0 ≤ (Stop.extent s.direction sizes t).across)
    (halong : ∀ t, 0 ≤ (Stop.extent s.direction sizes t).along) :
    ∃ x, Seating ranks arcs s (Stop.extent s.direction sizes) (pack s sizes rows) x
      (bandMiddle s (Stop.extent s.direction sizes) rows) := by
  set extent := Stop.extent s.direction sizes with hextent
  set widest := widestOf s extent rows with hwidest
  -- the row of a stop and its place there
  have hplace : ∀ t ∈ allStops ranks arcs, ∃ (hr : t.rank ranks < rows.length)
      (hk : rows[t.rank ranks].idxOf t < rows[t.rank ranks].length),
      rows[t.rank ranks][rows[t.rank ranks].idxOf t] = t := fun t ht => by
    have hr := h.rank_lt t ht
    have hm : t ∈ rows[t.rank ranks] := (h.mem_row _ hr t).mpr ⟨ht, rfl⟩
    exact ⟨hr, List.idxOf_lt_length_of_mem hm, List.getElem_idxOf _⟩
  refine ⟨fun t => leftAt s extent widest (rows.getD (t.rank ranks) [])
      ((rows.getD (t.rank ranks) []).idxOf t) + (extent t).across / 2, ?_, ?_, ?_⟩
  · intro t ht
    obtain ⟨hr, hk, hget⟩ := hplace t ht
    have hl := lookup_pack s sizes h.nodup _ _ hr hk
    rw [bandMiddle, List.getD_eq_getElem _ _ hr]
    rwa [hget] at hl
  · intro t ht u hu hne hrank'
    obtain ⟨hr, hk, hget⟩ := hplace t ht
    obtain ⟨hr', hk', hget'⟩ := hplace u hu
    simp only [← hrank', List.getD_eq_getElem _ _ hr] at hk' hget' ⊢
    rcases Nat.lt_trichotomy (rows[t.rank ranks].idxOf t) (rows[t.rank ranks].idxOf u) with
      hlt | heq | hgt
    · have := leftAt_gap s widest rows[t.rank ranks] hnode hacross hlt hk'
      rw [hget] at this
      left
      linarith
    · refine absurd ?_ hne
      calc t = rows[t.rank ranks][rows[t.rank ranks].idxOf t] := hget.symm
        _ = rows[t.rank ranks][rows[t.rank ranks].idxOf u] := by simp only [heq]
        _ = u := hget'
    · have := leftAt_gap s widest rows[t.rank ranks] hnode hacross hgt hk
      rw [hget'] at this
      right
      linarith
  · intro t ht u hu hlt
    have hr := h.rank_lt t ht
    have hr' := h.rank_lt u hu
    have hband := bandAt_gap s rows hrank halong hlt hr'
    have hmt : (extent t).along ≤ _ := along_le_bandOf ((h.mem_row _ hr t).mpr ⟨ht, rfl⟩)
    have hmu : (extent u).along ≤ _ := along_le_bandOf ((h.mem_row _ hr' u).mpr ⟨hu, rfl⟩)
    simp only [bandMiddle, List.getD_eq_getElem _ _ hr, List.getD_eq_getElem _ _ hr']
    linarith

end Scrawl.Layered
