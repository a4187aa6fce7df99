import Scrawl.Decimal.Fixed
import Scrawl.Proofs.Decimal.Rounding

/-!
# Scrawl.Proofs.Decimal.Nearest — the nearest whole number and the nearest double

A whole number is nearest to a value if it is no farther away than a half, and even if it is as far
away as that.  So there is one, and it does not fall when the value grows.

* `isNearest_divNearest`, `IsNearest.mono`: quotients are rounded to it, and in order.
* `rounded_ofRatio`: a quotient rounded to a double is near to it.
* `two_zpow_le_sub`: two doubles are apart by the last place of the smaller one.
-/

namespace Scrawl.Decimal

open Binary

/-! ### The nearest whole number -/

/-- The whole number is nearest to the value, a half going to the even one. -/
structure IsNearest (a : ℚ) (k : ℕ) : Prop where
  near : |a - k| ≤ 1 / 2
  even : |a - k| = 1 / 2 → Even k

section Whole

variable {a b : ℚ} {k l : ℕ}

theorem IsNearest.down {rest : ℚ} (hlow : 0 ≤ rest) (hhigh : rest ≤ 1 / 2)
    (htie : rest = 1 / 2 → Even k) : IsNearest (k + rest) k := by
  constructor
  · rwa [add_sub_cancel_left, abs_of_nonneg hlow]
  · rwa [add_sub_cancel_left, abs_of_nonneg hlow]

theorem IsNearest.up {rest : ℚ} (hlow : 1 / 2 ≤ rest) (hhigh : rest < 1)
    (htie : rest = 1 / 2 → ¬ Even k) : IsNearest (k + rest) (k + 1) := by
  have habs : |(k : ℚ) + rest - (k + 1 : ℕ)| = 1 - rest := by
    rw [Nat.cast_add_one, add_sub_add_left_eq_sub, abs_of_nonpos (by linarith), neg_sub]
  constructor
  · rw [habs]
    linarith
  · intro hhalf
    rw [habs] at hhalf
    exact Nat.even_add_one.mpr (htie (by linarith))

theorem isNearest_divNearest (num : ℕ) {den : ℕ} (h : 0 < den) :
    IsNearest (num / den) (divNearest num den) := by
  have hden : (0 : ℚ) < den := Nat.cast_pos.mpr h
  have hdiv : (num : ℚ) / den = (num / den : ℕ) + (num % den : ℕ) / den := by
    rw [add_div' _ _ _ hden.ne']
    congr 1
    exact_mod_cast (Nat.div_add_mod' num den).symm
  have hless : ((num % den : ℕ) : ℚ) / den < 1 := by
    rw [div_lt_one hden]
    exact_mod_cast Nat.mod_lt num h
  -- the remainder is compared with a half of the divisor
  have hhalf : 1 / 2 < ((num % den : ℕ) : ℚ) / den ↔ den < 2 * (num % den) := by
    rw [lt_div_iff₀ hden, ← @Nat.cast_lt ℚ]
    push_cast
    constructor <;> intro <;> linarith
  have hequal : ((num % den : ℕ) : ℚ) / den = 1 / 2 ↔ 2 * (num % den) = den := by
    rw [div_eq_iff hden.ne', ← @Nat.cast_inj ℚ]
    push_cast
    constructor <;> intro <;> linarith
  rw [hdiv]
  simp only [divNearest]
  by_cases hup : den < 2 * (num % den) ∨ 2 * (num % den) = den ∧ num / den % 2 = 1
  · rw [if_pos (by simpa using hup)]
    refine .up (hup.elim (fun h => (hhalf.mpr h).le) fun h => (hequal.mpr h.1).ge) hless ?_
    intro htie
    have hodd := (hup.resolve_left fun h => (hhalf.mpr h).ne' htie).2
    exact fun heven => absurd hodd (by rw [Nat.even_iff.mp heven]; decide)
  · rw [if_neg (by simpa using hup)]
    rw [not_or, not_and] at hup
    refine .down (by positivity) (not_lt.mp (mt hhalf.mp hup.1)) fun htie => ?_
    exact Nat.even_iff.mpr (by have := hup.2 (hequal.mp htie); omega)

/-- **Rounding keeps the order.** -/
theorem IsNearest.mono (ha : IsNearest a k) (hb : IsNearest b l) (h : a ≤ b) : k ≤ l := by
  by_contra! hlt
  have hstep : (l : ℚ) + 1 ≤ k := by exact_mod_cast hlt
  obtain ⟨hlow, -⟩ := abs_le.mp ha.near
  obtain ⟨-, hhigh⟩ := abs_le.mp hb.near
  -- the two can only be neighbours with both values in the middle, and then both are even
  have hka : |a - k| = 1 / 2 := by
    rw [abs_of_nonpos (by linarith)]
    linarith
  have hlb : |b - l| = 1 / 2 := by
    rw [abs_of_nonneg (by linarith)]
    linarith
  have hnext : (k : ℚ) = (l + 1 : ℕ) := by
    push_cast
    linarith
  have hk := ha.even hka
  rw [Nat.cast_inj.mp hnext] at hk
  exact absurd (hb.even hlb) (Nat.even_add_one.mp hk)

theorem isNearest_cast (k : ℕ) : IsNearest k k := by
  constructor <;> simp

end Whole

section Mantissa

variable {m k : ℕ} {e f : ℤ}

theorem cast_quotient (m : ℕ) (e : ℤ) :
    ((m * pow2 e.toNat : ℕ) : ℚ) / (pow2 (-e).toNat : ℕ) = m * 2 ^ e := by
  have hsplit : (2 : ℚ) ^ e * 2 ^ (-e).toNat = 2 ^ e.toNat := by
    rw [← zpow_natCast, ← zpow_natCast, ← zpow_add₀ two_ne_zero]
    congr 1
    omega
  have hden : ((pow2 (-e).toNat : ℕ) : ℚ) ≠ 0 := by simp [pow2]
  rw [div_eq_iff hden]
  simp only [pow2, Nat.pow_eq, Nat.cast_mul, Nat.cast_pow, Nat.cast_ofNat, ← hsplit]
  ring

theorem mul_zpow_nonneg (m : ℕ) (e : ℤ) : (0 : ℚ) ≤ m * 2 ^ e :=
  mul_nonneg (Nat.cast_nonneg m) (two_zpow_pos e).le

theorem pow2_pos (n : ℕ) : 0 < pow2 n := Nat.two_pow_pos n

theorem isNearest_scaledNearest (places m : ℕ) (e : ℤ) :
    IsNearest (m * 2 ^ e * 10 ^ places) (scaledNearest places m e) := by
  have h := isNearest_divNearest (m * pow10 places * pow2 e.toNat) (pow2_pos (-e).toNat)
  rw [cast_quotient] at h
  rw [scaledNearest]
  convert h using 1
  simp only [pow10, Nat.pow_eq, Nat.cast_mul, Nat.cast_pow, Nat.cast_ofNat]
  ring

/-! ### Doubles -/

/-- **Two doubles are apart by the last place of the smaller one.** -/
theorem two_zpow_le_sub (h : (finite false m e).IsDouble) (h' : (finite false k f).IsDouble)
    (hlt : (m : ℚ) * 2 ^ e < k * 2 ^ f) : (2 : ℚ) ^ e ≤ k * 2 ^ f - m * 2 ^ e := by
  obtain ⟨-, hnormal, -, -⟩ := h
  obtain ⟨hk, -, hf, -⟩ := h'
  have hpos := two_zpow_pos e
  by_cases hef : e ≤ f
  · -- the larger one is a whole number of such places
    have hsplit : (2 : ℚ) ^ f = (2 ^ (f - e).toNat : ℕ) * 2 ^ e := by
      push_cast
      rw [← zpow_natCast, ← zpow_add₀ two_ne_zero]
      congr 1
      omega
    rw [hsplit, ← mul_assoc] at hlt ⊢
    have hmore : m < k * 2 ^ (f - e).toNat := by
      exact_mod_cast lt_of_mul_lt_mul_right hlt hpos.le
    have hcast : (m : ℚ) + 1 ≤ k * (2 ^ (f - e).toNat : ℕ) := by exact_mod_cast hmore
    nlinarith
  · -- with its leading bit the mantissa of the smaller one is beyond all of the other
    have hleading : 2 ^ 52 ≤ m := hnormal.resolve_right (by omega)
    have hplace : (2 : ℚ) ^ f * 2 ≤ 2 ^ e := by
      rw [← zpow_add_one₀ two_ne_zero]
      exact zpow_le_zpow_right₀ one_le_two (by omega)
    have hm : (2 : ℚ) ^ 52 ≤ m := by exact_mod_cast hleading
    have hk' : (k : ℚ) ≤ 2 ^ 53 := by exact_mod_cast hk.le
    have hfpos := two_zpow_pos f
    nlinarith

/-- A double is given by its value, but for the sign of zero. -/
theorem eq_of_value_eq (h : (finite false m e).IsDouble) (h' : (finite false k f).IsDouble)
    (heq : (m : ℚ) * 2 ^ e = k * 2 ^ f) : m = k ∧ e = f := by
  -- the one of larger exponent would have a bit too many in the other
  have hle : ∀ {m k : ℕ} {e f : ℤ}, (finite false m e).IsDouble → (finite false k f).IsDouble →
      (m : ℚ) * 2 ^ e = k * 2 ^ f → f ≤ e := by
    intro m k e f ⟨hm, _, he, _⟩ ⟨_, hnormal, _, _⟩ heq
    by_contra! hlt
    have hleading : (2 : ℚ) ^ 52 ≤ k := by exact_mod_cast hnormal.resolve_right (by omega)
    have hplace : (2 : ℚ) ^ e * 2 ≤ 2 ^ f := by
      rw [← zpow_add_one₀ two_ne_zero]
      exact zpow_le_zpow_right₀ one_le_two (by omega)
    have hm' : (m : ℚ) < 2 ^ 53 := by exact_mod_cast hm
    have hpos := two_zpow_pos e
    nlinarith
  obtain rfl := le_antisymm (hle h' h heq.symm) (hle h h' heq)
  exact ⟨by exact_mod_cast mul_right_cancel₀ (two_zpow_pos e).ne' heq, rfl⟩

end Mantissa

/-! ### Quotients -/

section Quotient

variable {num den m : ℕ} {e : ℤ}

/-- The quotient in places of the double that it is rounded to. -/
theorem scaled_place (hden : den ≠ 0) :
    ((scaled num den (place num den)).1 : ℚ) / (scaled num den (place num den)).2 *
      2 ^ place num den = num / den := by
  set p := place num den
  have hsplit : (2 : ℚ) ^ p * 2 ^ (-p).toNat = 2 ^ p.toNat := by
    rw [← zpow_natCast, ← zpow_natCast, ← zpow_add₀ two_ne_zero]
    congr 1
    omega
  have hdenpos : (den : ℚ) ≠ 0 := Nat.cast_ne_zero.mpr hden
  simp only [scaled, pow2, Nat.pow_eq, Nat.cast_mul, Nat.cast_pow, Nat.cast_ofNat]
  rw [div_mul_eq_mul_div, div_eq_div_iff (by positivity) hdenpos, ← hsplit]
  ring

theorem scaled_pos (hden : den ≠ 0) (num : ℕ) (p : ℤ) : 0 < (scaled num den p).2 :=
  Nat.mul_pos (Nat.pos_of_ne_zero hden) (pow2_pos _)

/-- The double has the value of the rounded quotient: one bit too many moves to the exponent. -/
theorem value_ofRatio (hnum : num ≠ 0) (hden : den ≠ 0)
    (h : ofRatio false num den = finite false m e) :
    (m : ℚ) * 2 ^ e = divNearest (scaled num den (place num den)).1
      (scaled num den (place num den)).2 * 2 ^ place num den := by
  set p := place num den with hp
  set q := divNearest (scaled num den p).1 (scaled num den p).2 with hq
  have hcarry : q ≤ 2 ^ 53 :=
    divNearest_bounds.2.trans (Nat.succ_le_of_lt (scaledFloor_place hnum hden).2.1)
  rw [ofRatio_eq false hnum] at h
  dsimp only at h
  rw [← hp, ← hq] at h
  split_ifs at h with hlt
  · cases h
    rfl
  · cases h
    rw [show q = 2 ^ 53 by omega, zpow_add_one₀ two_ne_zero]
    push_cast
    ring

/-- The last place is small beside the quotient, or the least one. -/
theorem two_zpow_place_le (hnum : num ≠ 0) (hden : den ≠ 0) :
    (2 : ℚ) ^ place num den ≤ num / den * 2⁻¹ ^ 52 + grain := by
  obtain ⟨-, -, hnormal⟩ := scaledFloor_place hnum hden
  have hpos := two_zpow_pos (place num den)
  rcases hnormal with hleading | hleast
  · have hfloor : ((2 ^ 52 : ℕ) : ℚ) ≤
        (scaled num den (place num den)).1 / (scaled num den (place num den)).2 :=
      (Nat.cast_le.mpr hleading).trans Nat.cast_div_le
    have hprod := mul_le_mul_of_nonneg_right hfloor hpos.le
    rw [scaled_place hden] at hprod
    push_cast at hprod
    have hgrain := grain_pos
    linarith
  · rw [hleast, minExponent, zpow_neg]
    refine le_trans (le_of_eq ?_) (le_add_of_nonneg_left (by positivity))
    rw [grain, inv_pow]
    rfl

/-- **A quotient rounded to a double is near to it.** -/
theorem rounded_ofRatio (hden : den ≠ 0) (h : ofRatio false num den = finite false m e) :
    Rounded (num / den) (m * 2 ^ e) := by
  by_cases hnum : num = 0
  · rw [ofRatio, if_pos (by simpa using hnum)] at h
    cases h
    simpa [hnum] using Rounded.refl 0
  have hx : (0 : ℚ) < num / den := div_pos (Nat.cast_pos.mpr (Nat.pos_of_ne_zero hnum))
    (Nat.cast_pos.mpr (Nat.pos_of_ne_zero hden))
  have hpos := two_zpow_pos (place num den)
  have hscaled := scaled_pos hden num (place num den)
  have hnear := (isNearest_divNearest (scaled num den (place num den)).1 hscaled).near
  rw [value_ofRatio hnum hden h]
  set q := divNearest (scaled num den (place num den)).1 (scaled num den (place num den)).2
  refine ⟨fun _ => by positivity, fun hx' => absurd hx' hx.not_ge, ?_⟩
  have hbound : |(num : ℚ) / den - q * 2 ^ place num den| ≤ 1 / 2 * 2 ^ place num den := by
    rw [← scaled_place hden, ← sub_mul, abs_mul, abs_of_pos hpos]
    exact mul_le_mul_of_nonneg_right hnear hpos.le
  have hplace := two_zpow_place_le hnum hden
  have hgrain := grain_pos
  rw [abs_sub_comm, abs_of_pos hx]
  have hpow : (2⁻¹ : ℚ) ^ 51 = 2 * 2⁻¹ ^ 52 := by norm_num
  rw [hpow]
  have hulp : 0 ≤ (num : ℚ) / den * 2⁻¹ ^ 52 := by positivity
  linarith

end Quotient

end Scrawl.Decimal
