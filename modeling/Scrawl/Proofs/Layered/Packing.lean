import Mathlib.Algebra.BigOperators.Group.List.Basic
import Scrawl.Proofs.Exact
import Scrawl.Layered.Pack

/-!
# Scrawl.Proofs.Layered.Packing — where packing puts the members of the rows

Over the reals the centre of a member has a closed form: across the ranks it is the start of its
row, the room of the members before it with a gap each (`leftAt`), and half of its own room; along
the ranks it is the thickness of the bands before with a gap each (`bandAt`), and half of its own
band.

* `offset_add_le`: what stands before a place has its room before it.
* `exists_lookup_pack`: every member is given a centre, whatever the numbers are.
* `lookup_pack`: over the reals these are the centres that `pack` gives.
-/

namespace Scrawl.Layered

variable {n : ℕ}

/-! ### Sums over the members before a place -/

section Offset

variable {β : Type}

/-- The sum of `f` over the entries before the `i`-th. -/
noncomputable def offset (f : β → ℝ) (l : List β) (i : ℕ) : ℝ := ((l.take i).map f).sum

@[simp] theorem offset_zero (f : β → ℝ) (l : List β) : offset f l 0 = 0 := by simp [offset]

@[simp] theorem offset_cons_succ (f : β → ℝ) (x : β) (l : List β) (i : ℕ) :
    offset f (x :: l) (i + 1) = f x + offset f l i := by
  simp [offset]

theorem offset_nonneg {f : β → ℝ} {l : List β} (h : ∀ x ∈ l, 0 ≤ f x) (i : ℕ) :
    0 ≤ offset f l i :=
  List.sum_nonneg fun y hy => by
    obtain ⟨x, hx, rfl⟩ := List.mem_map.mp hy
    exact h x (List.mem_of_mem_take hx)

/-- An entry and all before it come before a later entry. -/
theorem offset_add_le {f : β → ℝ} {l : List β} (h : ∀ x ∈ l, 0 ≤ f x) {i j : ℕ} (hij : i < j)
    (hj : j ≤ l.length) : offset f l i + f (l[i]) ≤ offset f l j := by
  induction l generalizing i j with
  | nil => simp at hj; omega
  | cons x l ih =>
    obtain ⟨j, rfl⟩ : ∃ k, j = k + 1 := ⟨j - 1, by omega⟩
    have hl : ∀ y ∈ l, 0 ≤ f y := fun y hy => h y (List.mem_cons_of_mem _ hy)
    cases i with
    | zero =>
      have := offset_nonneg hl j
      simp only [offset_zero, offset_cons_succ, List.getElem_cons_zero]
      linarith
    | succ i =>
      have := ih hl (i := i) (j := j) (by omega) (by simpa using hj)
      simp only [offset_cons_succ, List.getElem_cons_succ]
      linarith

end Offset

/-! ### Rows and bands -/

section Lengths

variable {α : Type} [Scalar α]

theorem length_placeRow (gap cursor : α) (row : List (Extent α)) :
    (placeRow gap cursor row).length = row.length := by
  induction row generalizing cursor with
  | nil => rfl
  | cons e row ih => simp [placeRow, ih]

/-- Every member of every row has its place. -/
theorem lengths_placeRows {β : Type} (s : Spacing α) (extent : β → Extent α) (widest cursor : α)
    (rows : List (List β)) : List.Forall₂ (fun row points => row.length = points.length) rows
      (placeRows s widest cursor (rows.map (·.map extent))) := by
  induction rows generalizing cursor with
  | nil => exact .nil
  | cons row rows ih =>
    rw [List.map_cons, placeRows]
    exact .cons (by simp [length_placeRow]) (ih _)

end Lengths

theorem getElem_placeRow (gap cursor : ℝ) (row : List (Extent ℝ)) (i : ℕ) (hi : i < row.length)
    (hi' : i < (placeRow gap cursor row).length) :
    (placeRow gap cursor row)[i] =
      cursor + offset (fun e => e.across + gap) row i + row[i].across / 2 := by
  -- the cursor moves on by a member and a gap, which is the first summand of the offset
  induction row generalizing cursor i with
  | nil => exact absurd hi (Nat.not_lt_zero _)
  | cons e row ih =>
    cases i with
    | zero =>
      simp only [placeRow, List.getElem_cons_zero, offset_zero]
      norm_num
    | succ i =>
      simp only [placeRow, List.getElem_cons_succ, offset_cons_succ]
      rw [ih _ _ (Nat.lt_of_succ_lt_succ hi)]
      ring

variable (s : Spacing ℝ)

/-- How far the band of the `r`-th row begins along the ranks. -/
noncomputable def bandStart (rows : List (List (Extent ℝ))) (r : ℕ) : ℝ :=
  offset (fun row => bandOf row + s.rankGap) rows r

theorem getElem_placeRows (widest cursor : ℝ) (rows : List (List (Extent ℝ))) (r : ℕ)
    (hr : r < rows.length) (hr' : r < (placeRows s widest cursor rows).length) :
    (placeRows s widest cursor rows)[r] =
      (placeRow s.nodeGap ((widest - spanOf s.nodeGap rows[r]) / 2) rows[r]).map
        (orient s.direction · (cursor + bandStart s rows r + bandOf rows[r] / 2)) := by
  induction rows generalizing cursor r with
  | nil => exact absurd hr (Nat.not_lt_zero _)
  | cons row rows ih =>
    cases r with
    | zero =>
      simp only [placeRows, List.getElem_cons_zero, bandStart, offset_zero]
      norm_num
    | succ r =>
      simp only [placeRows, List.getElem_cons_succ, bandStart, offset_cons_succ]
      rw [ih _ _ (Nat.lt_of_succ_lt_succ hr)]
      simp only [bandStart]
      congr 2
      funext x
      congr 1
      ring

/-! ### The packed stops -/

section Zip

variable {β γ : Type}

theorem mem_zip_flatten : ∀ {xs : List (List β)} {ys : List (List γ)},
    List.Forall₂ (fun x y => x.length = y.length) xs ys → ∀ (r k : ℕ) (hr : r < xs.length)
    (hr' : r < ys.length) (hk : k < xs[r].length) (hk' : k < ys[r].length),
    (xs[r][k], ys[r][k]) ∈ xs.flatten.zip ys.flatten
  | _, _, .nil, r, _, hr, _, _, _ => absurd hr (Nat.not_lt_zero r)
  | x :: xs, y :: ys, .cons h hs, r, k, hr, hr', hk, hk' => by
    rw [List.flatten_cons, List.flatten_cons, List.zip_append h, List.mem_append]
    cases r with
    | zero =>
      left
      have hz : k < (x.zip y).length := by simpa using ⟨hk, hk'⟩
      have := List.getElem_mem hz
      rwa [List.getElem_zip] at this
    | succ r =>
      exact Or.inr (mem_zip_flatten hs r k (Nat.lt_of_succ_lt_succ hr)
        (Nat.lt_of_succ_lt_succ hr') hk hk')

theorem length_flatten_eq : ∀ {xs : List (List β)} {ys : List (List γ)},
    List.Forall₂ (fun x y => x.length = y.length) xs ys → xs.flatten.length = ys.flatten.length
  | _, _, .nil => rfl
  | _, _, .cons h hs => by
    simp only [List.flatten_cons, List.length_append, h, length_flatten_eq hs]

theorem lookup_of_mem [BEq β] [LawfulBEq β] {l : List (β × γ)} {x : β} {y : γ}
    (hl : (l.map Prod.fst).Nodup) (h : (x, y) ∈ l) : l.lookup x = some y := by
  obtain ⟨l₁, l₂, rfl⟩ := List.append_of_mem h
  refine List.lookup_eq_some_iff.mpr ⟨l₁, l₂, rfl, fun p hp => ?_⟩
  rw [List.map_append, List.map_cons] at hl
  have hne := (List.nodup_append.mp hl).2.2 p.1 (List.mem_map_of_mem hp) x List.mem_cons_self
  simpa using Ne.symm hne

end Zip

/-- Every member of a row is given a centre. -/
theorem exists_lookup_pack {α : Type} [Scalar α] (s : Spacing α) (sizes : Vector (α × α) n)
    {rows : List (List (Stop n))} {t : Stop n} (ht : t ∈ rows.flatten) :
    ∃ c, (pack s sizes rows).lookup t = some c := by
  have hlen := length_flatten_eq (lengths_placeRows s (Stop.extent s.direction sizes)
    (Scalar.largestOrZero ((rows.map (·.map (Stop.extent s.direction sizes))).map
      (spanOf s.nodeGap))) 0.0 rows)
  have hkeys : (pack s sizes rows).map Prod.fst = rows.flatten := List.map_fst_zip hlen.le
  obtain ⟨p, hp, rfl⟩ := List.mem_map.mp (hkeys ▸ ht)
  refine Option.isSome_iff_exists.mp (Option.isSome_iff_ne_none.mpr fun hnone => ?_)
  simpa using List.lookup_eq_none_iff.mp hnone p hp

/-- The length of the longest row. -/
noncomputable def widestOf (extent : Stop n → Extent ℝ) (rows : List (List (Stop n))) : ℝ :=
  Scalar.largestOrZero ((rows.map (·.map extent)).map (spanOf s.nodeGap))

/-- The left end of the `k`-th member of a row, if the longest row is `widest` long. -/
noncomputable def leftAt (extent : Stop n → Extent ℝ) (widest : ℝ) (row : List (Stop n)) (k : ℕ) :
    ℝ :=
  (widest - spanOf s.nodeGap (row.map extent)) / 2 +
    offset (fun t => (extent t).across + s.nodeGap) row k

/-- Where the band of the `r`-th row begins along the ranks. -/
noncomputable def bandAt (extent : Stop n → Extent ℝ) (rows : List (List (Stop n))) (r : ℕ) : ℝ :=
  offset (fun row => bandOf (row.map extent) + s.rankGap) rows r

/-- How far along the middle line of the band of the `r`-th row lies. -/
noncomputable def bandMiddle (extent : Stop n → Extent ℝ) (rows : List (List (Stop n))) (r : ℕ) :
    ℝ :=
  bandAt s extent rows r + bandOf ((rows.getD r []).map extent) / 2

theorem offset_map {β γ : Type} (f : γ → ℝ) (g : β → γ) (l : List β) (i : ℕ) :
    offset f (l.map g) i = offset (fun x => f (g x)) l i := by
  simp [offset, ← List.map_take, Function.comp_def]

theorem getElem_places (extent : Stop n → Extent ℝ) (widest : ℝ) (rows : List (List (Stop n)))
    (r k : ℕ) (hr : r < rows.length) (hk : k < rows[r].length)
    (hr' : r < (placeRows s widest 0.0 (rows.map (·.map extent))).length)
    (hk' : k < (placeRows s widest 0.0 (rows.map (·.map extent)))[r].length) :
    (placeRows s widest 0.0 (rows.map (·.map extent)))[r][k] = orient s.direction
      (leftAt s extent widest rows[r] k + (extent rows[r][k]).across / 2)
      (bandAt s extent rows r + bandOf (rows[r].map extent) / 2) := by
  have hplace := getElem_placeRows s widest 0.0 (rows.map (·.map extent)) r (by simpa using hr) hr'
  have hrow := getElem_placeRow s.nodeGap
    ((widest - spanOf s.nodeGap (rows[r].map extent)) / 2) (rows[r].map extent) k
    (by simpa using hk) (by simpa [length_placeRow] using hk)
  rw [List.getElem_of_eq hplace, List.getElem_map]
  simp only [List.getElem_map, hrow, offset_map, bandStart, leftAt, bandAt]
  norm_num

/-- **Where packing puts a stop.** -/
theorem lookup_pack (sizes : Vector (ℝ × ℝ) n) {rows : List (List (Stop n))}
    (hnd : rows.flatten.Nodup) (r k : ℕ) (hr : r < rows.length) (hk : k < rows[r].length) :
    (pack s sizes rows).lookup rows[r][k] = some (orient s.direction
      (leftAt s (Stop.extent s.direction sizes) (widestOf s (Stop.extent s.direction sizes) rows)
        rows[r] k + (Stop.extent s.direction sizes rows[r][k]).across / 2)
      (bandAt s (Stop.extent s.direction sizes) rows r +
        bandOf (rows[r].map (Stop.extent s.direction sizes)) / 2)) := by
  set extent := Stop.extent s.direction sizes with hextent
  set places := placeRows s (widestOf s extent rows) 0.0 (rows.map (·.map extent))
  have hrows : List.Forall₂ (fun x y => x.length = y.length) rows places :=
    lengths_placeRows s extent _ _ rows
  have hr' : r < places.length := hrows.length_eq ▸ hr
  have hk' : k < places[r].length := hrows.get hr hr' ▸ hk
  rw [← getElem_places s extent _ rows r k hr hk hr' hk']
  have hpack : pack s sizes rows = rows.flatten.zip places.flatten := rfl
  rw [hpack]
  refine lookup_of_mem ?_ (mem_zip_flatten hrows r k hr hr' hk hk')
  rw [List.map_fst_zip (length_flatten_eq hrows).le]
  exact hnd

end Scrawl.Layered
