import Scrawl.Proofs.Decimal.Fixed
import Scrawl.Proofs.Decimal.Nearest
import Scrawl.Svg.Number

/-!
# Scrawl.Proofs.Svg.Snapping — numbers that are written as whole ones

A number is written as the nearest whole one if it is near to it, and how near it has to be grows
with its size.  The numbers that are written as one whole number have no other between them all the
same: the next double is always farther away than what the limit grows by.

* `snaps_iff`: which doubles are written as whole numbers.
* `snaps_of_between`: with a double all those between it and its whole number are.
* `writtenValue_near`, `writtenValue_mono`: what is written is near to the number, and in order.
-/

namespace Scrawl.Svg

open Decimal Binary

/-- The double nearest to a billionth. -/
def billionth : ℚ := tolerance.1 * 2 ^ tolerance.2

theorem billionth_eq : billionth = 4835703278458517 / 4835703278458516698824704 := by
  rw [billionth, tolerance]
  norm_num

theorem billionth_eq_div : billionth = tolerance.1 / (pow2 82 : ℕ) := by
  rw [billionth_eq, tolerance, pow2]
  norm_num

theorem grain_le : grain ≤ 2⁻¹ ^ 100 := pow_le_pow_of_le_one (by norm_num) (by norm_num) (by decide)

/-! ### Which numbers are written as whole ones -/

/-- A comparison with the share of a size is one with the double that it is rounded to. -/
theorem withinShare_iff {num den sizeNum sizeDen k : ℕ} {f : ℤ} (hden : 0 < den)
    (h : ofRatio false (tolerance.1 * sizeNum) (pow2 82 * sizeDen) = finite false k f) :
    withinShare num den sizeNum sizeDen ↔ (num : ℚ) / den ≤ k * 2 ^ f := by
  have hreads : withinShare num den sizeNum sizeDen =
      decide (num * pow2 (-f).toNat ≤ k * pow2 f.toNat * den) := by
    have h82 : pow2 (-tolerance.2).toNat = pow2 82 := rfl
    simp only [withinShare, h82, h]
  have hd : (0 : ℚ) < den := Nat.cast_pos.mpr hden
  have hp : (0 : ℚ) < (pow2 (-f).toNat : ℕ) := Nat.cast_pos.mpr (pow2_pos _)
  rw [hreads, decide_eq_true_eq, ← cast_quotient, div_le_div_iff₀ hd hp]
  exact_mod_cast Iff.rfl

section Doubles

variable {m k : ℕ} {e f : ℤ}

/-- The whole number nearest to a mantissa at an exponent. -/
def nearestWhole (m : ℕ) (e : ℤ) : ℕ := divNearest (m * pow2 e.toNat) (pow2 (-e).toNat)

/-- The number is written as the nearest whole one. -/
def Snaps (m : ℕ) (e : ℤ) : Prop :=
  isWhole (m * pow2 e.toNat) (pow2 (-e).toNat) (nearestWhole m e)

theorem isNearest_nearestWhole (m : ℕ) (e : ℤ) : IsNearest (m * 2 ^ e) (nearestWhole m e) := by
  have h := isNearest_divNearest (m * pow2 e.toNat) (pow2_pos (-e).toNat)
  rwa [cast_quotient] at h

/-- A number and the whole one nearest to it are below a power of two twice as large. -/
theorem size_le {num den j : ℕ} (hnum : num ≤ 2 ^ j) (hden : 0 < den) :
    max num (divNearest num den * den) ≤ 2 ^ (j + 1) * den := by
  have hwhole : divNearest num den * den ≤ num + den :=
    calc divNearest num den * den ≤ (num / den + 1) * den :=
          Nat.mul_le_mul_right _ divNearest_bounds.2
      _ ≤ num + den := by
          rw [Nat.add_mul, Nat.one_mul]
          exact Nat.add_le_add_right (Nat.div_mul_le_self _ _) _
  calc max num (divNearest num den * den) ≤ num + den := max_le (Nat.le_add_right _ _) hwhole
    _ ≤ 2 ^ j * den + 2 ^ j * den :=
        Nat.add_le_add (hnum.trans (Nat.le_mul_of_pos_right _ hden))
          (Nat.le_mul_of_pos_left _ (Nat.two_pow_pos _))
    _ = 2 ^ (j + 1) * den := by rw [Nat.pow_succ, Nat.mul_two, Nat.add_mul]

/-- The share of a size that is not too large is rounded to a finite double. -/
theorem exists_share {num den j : ℕ} (hnum : num ≤ 2 ^ j) (hden : 0 < den) (hj : j ≤ 1049) :
    ∃ (k : ℕ) (f : ℤ),
      ofRatio false (tolerance.1 * max num (divNearest num den * den)) (pow2 82 * den) =
        finite false k f := by
  have hpow : (2 : ℕ) ^ 53 * 2 ^ (j + 1) ≤ 2 ^ 82 * 2 ^ (j - 28) := by
    rw [← Nat.pow_add, ← Nat.pow_add]
    exact Nat.pow_le_pow_right (by decide) (by omega)
  have hshare : tolerance.1 * max num (divNearest num den * den) ≤ pow2 82 * den * 2 ^ (j - 28) :=
    calc tolerance.1 * max num (divNearest num den * den) ≤ 2 ^ 53 * (2 ^ (j + 1) * den) :=
          Nat.mul_le_mul (by decide) (size_le hnum hden)
      _ = 2 ^ 53 * 2 ^ (j + 1) * den := (Nat.mul_assoc ..).symm
      _ ≤ 2 ^ 82 * 2 ^ (j - 28) * den := Nat.mul_le_mul_right _ hpow
      _ = pow2 82 * den * 2 ^ (j - 28) := Nat.mul_right_comm ..
  have hlog := log2_lt_of_le_mul hshare
  exact ofRatio_finite false (by omega)

theorem numerator_le {j k : ℕ} (hm : m < 2 ^ j) (he : e ≤ k) :
    m * pow2 e.toNat ≤ 2 ^ (j + k) := by
  rw [Nat.pow_add]
  exact Nat.mul_le_mul hm.le (Nat.pow_le_pow_right (by decide) (by omega))

/-- How far a double is from the whole number nearest to it. -/
def gap (m : ℕ) (e : ℤ) : ℚ := |(m : ℚ) * 2 ^ e - nearestWhole m e|

/-- The larger one of a double and the whole number nearest to it. -/
def size (m : ℕ) (e : ℤ) : ℚ := max ((m : ℚ) * 2 ^ e) (nearestWhole m e)

/-- **Which doubles are written as whole numbers.**  The nearest whole number has to be no farther
away than a billionth, or than a limit near to a billionth of the larger of the two. -/
theorem snaps_iff (h : (finite false m e).IsDouble) : ∃ limit : ℚ,
    Rounded (billionth * size m e) limit ∧
      (Snaps m e ↔ gap m e ≤ limit ∨ gap m e ≤ billionth) := by
  obtain ⟨hm, -, -, he⟩ := h
  set num := m * pow2 e.toNat with hnum
  set den := pow2 (-e).toNat with hden
  have hpos : 0 < den := pow2_pos _
  obtain ⟨k, f, hshare⟩ := exists_share (numerator_le hm he) hpos (by decide)
  set whole := nearestWhole m e with hwhole
  change ofRatio false (tolerance.1 * max num (whole * den)) (pow2 82 * den) = _ at hshare
  have hq : (0 : ℚ) < den := Nat.cast_pos.mpr hpos
  have hvalue : (num : ℚ) / den = m * 2 ^ e := cast_quotient m e
  have hshift : ((whole * den : ℕ) : ℚ) / den = whole := by
    rw [Nat.cast_mul, mul_div_cancel_right₀ _ hq.ne']
  have hgap : ((max num (whole * den) - min num (whole * den) : ℕ) : ℚ) / den = gap m e := by
    rw [Nat.cast_sub min_le_max, Nat.cast_max, Nat.cast_min, max_sub_min_eq_abs, gap, ← hvalue,
      ← hshift, ← sub_div, abs_div, abs_of_pos hq, abs_sub_comm]
  have hsize : ((max num (whole * den) : ℕ) : ℚ) / den = size m e := by
    rw [Nat.cast_max, ← max_div_div_right hq.le, hvalue, hshift, size]
  refine ⟨k * 2 ^ f, ?_, ?_⟩
  · convert rounded_ofRatio (Nat.mul_ne_zero (by decide) hpos.ne') hshare using 1
    rw [← hsize, billionth_eq_div, Nat.cast_mul, Nat.cast_mul, div_mul_div_comm]
  · have hone : ofRatio false (tolerance.1 * 1) (pow2 82 * 1) =
        finite false tolerance.1 tolerance.2 := by decide +kernel
    rw [← hgap, ← withinShare_iff hpos hshare, billionth, ← withinShare_iff hpos hone,
      ← Bool.or_eq_true]
    exact Iff.rfl

/-! ### No number between -/

theorem size_nonneg (m : ℕ) (e : ℤ) : 0 ≤ size m e := le_max_of_le_right (Nat.cast_nonneg _)

theorem billionth_pos : 0 < billionth := by
  rw [billionth_eq]
  norm_num

theorem Snaps.near (h : (finite false m e).IsDouble) (hs : Snaps m e) :
    gap m e ≤ billionth * size m e * (1 + 2⁻¹ ^ 51) + 2 * grain ∨ gap m e ≤ billionth := by
  obtain ⟨limit, hlimit, hiff⟩ := snaps_iff h
  have hbound := (abs_le.mp hlimit.abs_sub_le).2
  rw [abs_of_nonneg (mul_nonneg billionth_pos.le (size_nonneg m e))] at hbound
  exact (hiff.mp hs).imp_left fun hgap => by linarith

theorem snaps_of_near (h : (finite false m e).IsDouble)
    (hnear : gap m e ≤ billionth * size m e * (1 - 2⁻¹ ^ 51) - 2 * grain ∨ gap m e ≤ billionth) :
    Snaps m e := by
  obtain ⟨limit, hlimit, hiff⟩ := snaps_iff h
  have hbound := (abs_le.mp hlimit.abs_sub_le).1
  rw [abs_of_nonneg (mul_nonneg billionth_pos.le (size_nonneg m e))] at hbound
  exact hiff.mpr (hnear.imp_left fun hgap => by linarith)

/-- Near to zero only the absolute distance counts. -/
theorem Snaps.gap_le (h : (finite false m e).IsDouble) (hs : Snaps m e)
    (hzero : nearestWhole m e = 0) : gap m e ≤ billionth := by
  refine (hs.near h).elim (fun hnear => ?_) id
  have hvalue := mul_zpow_nonneg m e
  have hgap : gap m e = m * 2 ^ e := by
    rw [gap, hzero, Nat.cast_zero, sub_zero, abs_of_nonneg hvalue]
  have hsize : size m e = m * 2 ^ e := by rw [size, hzero, Nat.cast_zero, max_eq_left hvalue]
  have hgrain := grain_le
  rw [hgap, hsize, billionth_eq] at hnear
  rw [hgap, billionth_eq]
  norm_num at hnear hgrain ⊢
  linarith

/-- How near a number has to be grows by less than what the number grows by. -/
theorem share_step {a step : ℚ} (hone : 1 ≤ a) (hstep : a ≤ 2 ^ 54 * step) :
    billionth * (a + step) * (1 + 2⁻¹ ^ 51) + 2 * grain - step ≤
      billionth * a * (1 - 2⁻¹ ^ 51) - 2 * grain := by
  have hgrain := grain_le
  rw [billionth_eq]
  norm_num at hstep hgrain ⊢
  linarith

theorem value_le_mul_sub (h : (finite false m e).IsDouble) (h' : (finite false k f).IsDouble)
    (hlt : (m : ℚ) * 2 ^ e < k * 2 ^ f) :
    (m : ℚ) * 2 ^ e ≤ 2 ^ 53 * (k * 2 ^ f - m * 2 ^ e) :=
  have hm : (m : ℚ) ≤ 2 ^ 53 := by exact_mod_cast h.1.le
  mul_le_mul hm (two_zpow_le_sub h h' hlt) (two_zpow_pos e).le (by norm_num)

/-- The first double lies between the second one and the whole number nearest to both. -/
structure Between (m : ℕ) (e : ℤ) (k : ℕ) (f : ℤ) : Prop where
  whole : nearestWhole m e = nearestWhole k f
  side : (nearestWhole k f : ℚ) ≤ m * 2 ^ e ∧ (m : ℚ) * 2 ^ e ≤ k * 2 ^ f ∨
    (k : ℚ) * 2 ^ f ≤ m * 2 ^ e ∧ (m : ℚ) * 2 ^ e ≤ nearestWhole k f

/-- The step from a double to another one before it is as large as its last place. -/
theorem Between.exists_step (hb : Between m e k f) (h : (finite false m e).IsDouble)
    (h' : (finite false k f).IsDouble) (hne : (m : ℚ) * 2 ^ e ≠ k * 2 ^ f) :
    ∃ step : ℚ, 0 ≤ step ∧ gap m e = gap k f - step ∧ size k f ≤ size m e + step ∧
      (1 ≤ size m e → size m e ≤ 2 ^ 54 * step) := by
  rw [gap, gap, size, size, hb.whole]
  rcases hb.side with ⟨hlow, hhigh⟩ | ⟨hlow, hhigh⟩
  · have hfar := value_le_mul_sub h h' (hhigh.lt_of_ne hne)
    refine ⟨k * 2 ^ f - m * 2 ^ e, sub_nonneg.mpr hhigh, ?_, ?_, fun _ => ?_⟩
    · rw [abs_of_nonneg (sub_nonneg.mpr hlow), abs_of_nonneg (by linarith)]
      ring
    · rw [max_eq_left (hlow.trans hhigh), max_eq_left hlow, add_sub_cancel]
    · rw [max_eq_left hlow]
      linarith
  · have hfar := value_le_mul_sub h' h (hlow.lt_of_ne hne.symm)
    refine ⟨m * 2 ^ e - k * 2 ^ f, sub_nonneg.mpr hlow, ?_, ?_, fun hone => ?_⟩
    · rw [abs_of_nonpos (sub_nonpos.mpr hhigh), abs_of_nonpos (by linarith)]
      ring
    · rw [max_eq_right (hlow.trans hhigh), max_eq_right hhigh]
      linarith
    · -- a number that is rounded to one or more is at least half as large
      have hhalf := (abs_le.mp (isNearest_nearestWhole k f).near).1
      rw [max_eq_right hhigh] at hone ⊢
      linarith

/-- **With a double all those between it and its whole number are written as this one.** -/
theorem snaps_of_between (hb : Between m e k f) (h : (finite false m e).IsDouble)
    (h' : (finite false k f).IsDouble) (hs : Snaps k f) : Snaps m e := by
  by_cases heq : (m : ℚ) * 2 ^ e = k * 2 ^ f
  · obtain ⟨rfl, rfl⟩ := eq_of_value_eq h h' heq
    exact hs
  obtain ⟨step, hstep, hgap, hsize, hone⟩ := hb.exists_step h h' heq
  by_cases hzero : nearestWhole k f = 0
  · exact snaps_of_near h (Or.inr (by linarith [hs.gap_le h' hzero]))
  · have hlarge : 1 ≤ size m e :=
      le_max_of_le_right (by exact_mod_cast Nat.one_le_iff_ne_zero.mpr (hb.whole ▸ hzero))
    refine snaps_of_near h ((hs.near h').imp (fun hnear => ?_) fun hnear => by linarith)
    calc gap m e = gap k f - step := hgap
      _ ≤ billionth * size k f * (1 + 2⁻¹ ^ 51) + 2 * grain - step := sub_le_sub_right hnear _
      _ ≤ billionth * (size m e + step) * (1 + 2⁻¹ ^ 51) + 2 * grain - step := by
          have hpos := billionth_pos.le
          gcongr
      _ ≤ billionth * size m e * (1 - 2⁻¹ ^ 51) - 2 * grain := share_step hlarge (hone hlarge)

/-! ### The number that is written -/

/-- The value of the text of a mantissa at an exponent. -/
def writtenValue (m : ℕ) (e : ℤ) : ℚ :=
  if isWhole (m * pow2 e.toNat) (pow2 (-e).toNat) (nearestWhole m e) then nearestWhole m e
  else scaledNearest 3 m e / 1000

theorem writtenValue_of_snaps (h : Snaps m e) : writtenValue m e = nearestWhole m e := if_pos h

theorem writtenValue_of_not_snaps (h : ¬ Snaps m e) :
    writtenValue m e = scaledNearest 3 m e / 1000 := if_neg h

theorem writtenValue_nonneg (m : ℕ) (e : ℤ) : 0 ≤ writtenValue m e := by
  unfold writtenValue
  split_ifs <;> positivity

theorem writtenValue_of_eq_zero (h : (m : ℚ) * 2 ^ e = 0) : writtenValue m e = 0 := by
  have hm : m = 0 := by exact_mod_cast (mul_eq_zero.mp h).resolve_right (two_zpow_pos e).ne'
  simp [writtenValue, nearestWhole, scaledNearest, divNearest, hm]

theorem isNearest_thousandths (m : ℕ) (e : ℤ) :
    IsNearest (m * 2 ^ e * 1000) (scaledNearest 3 m e) := by
  have h := isNearest_scaledNearest 3 m e
  norm_num at h
  exact h

/-- **What is written is near to the number.** -/
theorem writtenValue_near (h : (finite false m e).IsDouble) :
    |writtenValue m e - m * 2 ^ e| ≤ max 0.0005 (1.001e-9 * size m e) := by
  by_cases hs : Snaps m e
  · rw [writtenValue_of_snaps hs, abs_sub_comm]
    change gap m e ≤ _
    have hgrain := grain_le
    have hnear := hs.near h
    have hsize := size_nonneg m e
    rw [billionth_eq] at hnear
    by_cases hlarge : 1 ≤ size m e
    · rw [le_max_iff]
      refine hnear.symm.imp (fun hnear => ?_) fun hnear => ?_ <;>
        norm_num at hnear hgrain ⊢ <;> linarith
    · refine le_max_of_le_left ?_
      rcases hnear with hnear | hnear <;> norm_num at hnear hgrain ⊢ <;> linarith
  · rw [writtenValue_of_not_snaps hs, abs_sub_comm]
    have hnear := (isNearest_thousandths m e).near
    refine le_max_of_le_left ?_
    rw [abs_le] at hnear ⊢
    norm_num
    constructor <;> linarith

/-- **What is written is in order.** -/
theorem writtenValue_mono (h : (finite false m e).IsDouble) (h' : (finite false k f).IsDouble)
    (hle : (m : ℚ) * 2 ^ e ≤ k * 2 ^ f) : writtenValue m e ≤ writtenValue k f := by
  have hwhole := (isNearest_nearestWhole m e).mono (isNearest_nearestWhole k f) hle
  by_cases hs : Snaps m e <;> by_cases hs' : Snaps k f
  · rw [writtenValue_of_snaps hs, writtenValue_of_snaps hs']
    exact_mod_cast hwhole
  · rw [writtenValue_of_snaps hs, writtenValue_of_not_snaps hs', le_div_iff₀ (by norm_num)]
    have hbefore : (nearestWhole m e : ℚ) ≤ k * 2 ^ f := by
      by_contra! hbeyond
      have hback := (isNearest_nearestWhole k f).mono (isNearest_cast _) hbeyond.le
      have heq : nearestWhole k f = nearestWhole m e := le_antisymm hback hwhole
      exact hs' (snaps_of_between ⟨heq, Or.inr ⟨hle, hbeyond.le⟩⟩ h' h hs)
    have hscaled := (isNearest_cast (nearestWhole m e * 1000)).mono (isNearest_thousandths k f)
      (by push_cast; linarith)
    exact_mod_cast hscaled
  · rw [writtenValue_of_not_snaps hs, writtenValue_of_snaps hs', div_le_iff₀ (by norm_num)]
    have hbefore : (m : ℚ) * 2 ^ e ≤ nearestWhole k f := by
      by_contra! hbeyond
      have hback := (isNearest_cast _).mono (isNearest_nearestWhole m e) hbeyond.le
      have heq : nearestWhole m e = nearestWhole k f := le_antisymm hwhole hback
      exact hs (snaps_of_between ⟨heq, Or.inl ⟨hbeyond.le, hle⟩⟩ h h' hs')
    have hscaled := (isNearest_thousandths m e).mono (isNearest_cast (nearestWhole k f * 1000))
      (by push_cast; linarith)
    exact_mod_cast hscaled
  · rw [writtenValue_of_not_snaps hs, writtenValue_of_not_snaps hs']
    have hscaled := (isNearest_thousandths m e).mono (isNearest_thousandths k f) (by linarith)
    gcongr

end Doubles

end Scrawl.Svg
