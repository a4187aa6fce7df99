import Scrawl.Proofs.Decimal.Rounding

/-!
# Scrawl.Proofs.Decimal.Arithmetic — the operations on finite doubles

The result of an operation on finite doubles is near to the result of the operation on their values,
and finite as long as that one is in range.

* `rounded_add`, `rounded_sub`, `rounded_mul`, `rounded_div`: the four operations.
* `isFinite_add_iff`, `isFinite_sub_iff`, `isFinite_mul_iff`: when they are in range.
* `abs_doubleValue_le`: the largest double.
-/

namespace Scrawl.Decimal

open Float.Model (Format UnpackedFloat totalExponent)
open Float.Model.UnpackedFloat
open Binary

/-! ### Operations in the model -/

section Operations

variable {u v : UnpackedFloat}

/-- A double is half a place or more below the brink. -/
theorem abs_value_le (hdouble : (ofUnpacked u).IsDouble) :
    |value u| ≤ brink - 2 ^ (970 : ℤ) := by
  have hbrink := brink_eq
  have hlast : (2 : ℚ) ^ (971 : ℤ) = 2 * 2 ^ (970 : ℤ) := by
    rw [← zpow_one_add₀ (by norm_num)]
    rfl
  have hpos := two_zpow_pos 970
  rw [hlast] at hbrink
  cases u with
  | notANumber | infinity s | zero s =>
    change |(0 : ℚ)| ≤ _
    rw [abs_zero]
    clear hlast
    generalize (2 : ℚ) ^ (970 : ℤ) = half at *
    linarith
  | finite s m e hm =>
    obtain ⟨hlt, -, -, he⟩ := hdouble
    have hmantissa : (m : ℚ) ≤ 2 ^ 53 - 1 := by
      have hcast : (m : ℚ) + 1 ≤ 2 ^ 53 := by exact_mod_cast hlt
      linarith
    have hplace : (2 : ℚ) ^ e ≤ 2 * 2 ^ (970 : ℤ) := by
      rw [← hlast]
      exact zpow_le_zpow_right₀ (by norm_num) he
    have hm0 : (0 : ℚ) ≤ (m : ℚ) := Nat.cast_nonneg m
    rw [value, apply_mul, abs_apply_mul _ (mul_nonneg hm0 (two_zpow_pos e).le)]
    clear hlast
    generalize (2 : ℚ) ^ (970 : ℤ) = half at *
    have hproduct : (m : ℚ) * 2 ^ e ≤ (2 ^ 53 - 1) * (2 * half) :=
      mul_le_mul hmantissa hplace (two_zpow_pos e).le (by norm_num)
    linarith

theorem rounding_self (hfinite : u.isFinite) (hdouble : (ofUnpacked u).IsDouble) :
    ExactRounding (value u) u :=
  ⟨fun _ => ⟨hfinite, hdouble, Rounded.refl _⟩,
    fun h => absurd (h.trans (abs_value_le hdouble))
      (not_le.mpr (sub_lt_self _ (two_zpow_pos 970)))⟩

theorem value_align (s : Sign) {m : ℕ} {e low : ℤ} (h : low ≤ e) :
    (s.apply ((decreaseExponent m e low).1 : ℤ) : ℚ) * 2 ^ low = s.apply (m : ℤ) * 2 ^ e := by
  have hplace : e - (e - low).toNat = low := by omega
  have hvalue := value_shift m (e - low).toNat e
  rw [hplace] at hvalue
  rw [show (decreaseExponent m e low).1 = m <<< (e - low).toNat from rfl, apply_mul, apply_mul,
    hvalue]

/-- The sum of two finite doubles. -/
theorem rounding_add (hu : u.isFinite) (hv : v.isFinite) (hdu : (ofUnpacked u).IsDouble)
    (hdv : (ofUnpacked v).IsDouble) :
    ExactRounding (value u + value v) (UnpackedFloat.add .binary64 u v) := by
  match u, v with
  | .notANumber, _ | .infinity _, _ => cases hu
  | _, .notANumber | _, .infinity _ => cases hv
  | .zero s, .zero t =>
    rw [show value (.zero s) + value (.zero t) = 0 from add_zero 0]
    cases s <;> cases t <;> exact rounding_zero _
  | .zero _, .finite s m e hm =>
    rw [show value (.zero _) = 0 from rfl, zero_add]
    exact rounding_self hv hdv
  | .finite s m e hm, .zero _ =>
    rw [show value (.zero _) = 0 from rfl, add_zero]
    exact rounding_self hu hdu
  | .finite s m e hm, .finite t k f hk =>
    have hsum : value (.finite s m e hm) + value (.finite t k f hk) =
        ((s.apply ((decreaseExponent m e (min e f)).1 : ℤ) +
          t.apply ((decreaseExponent k f (min e f)).1 : ℤ) : ℤ) : ℚ) * 2 ^ min e f := by
      rw [Int.cast_add, add_mul, value_align s (min_le_left e f), value_align t (min_le_right e f)]
      rfl
    rw [hsum]
    exact rounding_normalize _ _ .positive

/-- The mantissas of two doubles, one times the other, have enough bits or are at least. -/
theorem le_roundingExponent_mul {m k : ℕ} {e f : ℤ} (hm : 0 < m) (hk : 0 < k)
    (hme : 2 ^ 52 ≤ m ∨ e = -1074) (hkf : 2 ^ 52 ≤ k ∨ f = -1074) :
    e + f ≤ roundingExponent (m * k) (e + f) := by
  have hlog : 2 ^ 52 ≤ m * k → 52 ≤ (m * k).log2 :=
    (Nat.le_log2 (Nat.mul_pos hm hk).ne').mpr
  rw [roundingExponent]
  rcases hme with hme | rfl
  · have := hlog (hme.trans (Nat.le_mul_of_pos_right m hk))
    omega
  · rcases hkf with hkf | rfl
    · have := hlog (hkf.trans (Nat.le_mul_of_pos_left k hm))
      omega
    · omega

theorem apply_mul_apply (s t : Sign) (x y : ℚ) :
    (s.apply 1 * x) * (t.apply 1 * y) = (s * t).apply 1 * (x * y) := by
  have hsign : (s * t).apply 1 = s.apply 1 * t.apply 1 := by
    cases s <;> cases t <;> rfl
  rw [hsign, Int.cast_mul]
  ring

theorem apply_div_apply (s t : Sign) (x y : ℚ) :
    (s.apply 1 * x) / (t.apply 1 * y) = (s / t).apply 1 * (x / y) := by
  have hsign : (s / t).apply 1 = s.apply 1 * t.apply 1 := by
    cases s <;> cases t <;> rfl
  have hinv : ((t.apply 1 : ℤ) : ℚ)⁻¹ = t.apply 1 := by
    cases t <;> norm_num [Sign.apply]
  rw [hsign, Int.cast_mul, div_eq_mul_inv, mul_inv, hinv, div_eq_mul_inv]
  ring

/-- The product of two finite doubles. -/
theorem rounding_mul (hu : u.isFinite) (hv : v.isFinite) (hdu : (ofUnpacked u).IsDouble)
    (hdv : (ofUnpacked v).IsDouble) :
    ExactRounding (value u * value v) (UnpackedFloat.mul .binary64 u v) := by
  match u, v with
  | .notANumber, _ | .infinity _, _ => cases hu
  | _, .notANumber | _, .infinity _ => cases hv
  | .zero s, .zero t =>
    rw [show value (.zero s) * value (.zero t) = 0 from mul_zero 0]
    exact rounding_zero _
  | .zero s, .finite t k f hk =>
    rw [show value (.zero s) = 0 from rfl, zero_mul]
    exact rounding_zero _
  | .finite s m e hm, .zero t =>
    rw [show value (.zero t) = 0 from rfl, mul_zero]
    exact rounding_zero _
  | .finite s m e hm, .finite t k f hk =>
    have hvalue : value (.finite s m e hm) * value (.finite t k f hk) =
        (s * t).apply 1 * ((m * k : ℕ) * 2 ^ (e + f)) := by
      rw [value, value, apply_mul, apply_mul, apply_mul_apply, zpow_add₀ (by norm_num)]
      push_cast
      ring
    rw [hvalue]
    exact rounding_roundWithAccuracy (Nat.mul_pos hm hk)
      (le_roundingExponent_mul hm hk hdu.2.1 hdv.2.1) _

/-- A quotient is taken with enough bits or at the least exponent. -/
theorem divCore_place {m k : ℕ} {e f : ℤ} (hm : 0 < m) (hk : 0 < k) :
    let q := (divCore .binary64 m e k f).1
    let t := (divCore .binary64 m e k f).2.1
    t ≤ roundingExponent q t ∧ (0 < q ∨ roundingExponent q t = -1074) := by
  set t := min (e - f) (max ((m.log2 : ℤ) + e - k.log2 - f - 53) (-1074)) with ht
  have hplace : (divCore .binary64 m e k f).2.1 = t := by
    change min (e - f) (max ((m.log2 : ℤ) + 1 + e - (k.log2 + 1 + f) - 53) (-1074)) = t
    omega
  have hquotient : (divCore .binary64 m e k f).1 = m <<< (e - f - t).toNat / k := by
    rw [← hplace]
    rfl
  dsimp only
  rw [hquotient, hplace]
  set q := m <<< (e - f - t).toNat / k
  by_cases hlow : t ≤ -1074
  · refine ⟨hlow.trans (le_max_right _ _), ?_⟩
    rcases Nat.eq_zero_or_pos q with hq | hq
    · rw [hq, roundingExponent, Nat.log2_zero]
      omega
    · exact Or.inl hq
  · -- the dividend was given 53 bits more than the divisor
    have hbits : 2 ^ 52 ≤ q := by
      rw [Nat.le_div_iff_mul_le hk, Nat.shiftLeft_eq]
      have hm' := Nat.log2_self_le hm.ne'
      have hk' := Nat.lt_log2_self (n := k)
      calc 2 ^ 52 * k ≤ 2 ^ 52 * 2 ^ (k.log2 + 1) := by gcongr
        _ = 2 ^ (k.log2 + 53) := by rw [← Nat.pow_add]; congr 1; omega
        _ ≤ 2 ^ (m.log2 + (e - f - t).toNat) := Nat.pow_le_pow_right (by decide) (by omega)
        _ = 2 ^ m.log2 * 2 ^ (e - f - t).toNat := Nat.pow_add ..
        _ ≤ m * 2 ^ (e - f - t).toNat := by gcongr
    have hq : 0 < q := lt_of_lt_of_le (by decide) hbits
    have hlog : 52 ≤ q.log2 := (Nat.le_log2 hq.ne').mpr hbits
    refine ⟨?_, Or.inl hq⟩
    rw [roundingExponent]
    omega

theorem value_divCore {m k : ℕ} {e f : ℤ} (hk : 0 < k) :
    let q := (divCore .binary64 m e k f).1
    let t := (divCore .binary64 m e k f).2.1
    (q : ℚ) * 2 ^ t ≤ m * 2 ^ e / (k * 2 ^ f) ∧
      (m : ℚ) * 2 ^ e / (k * 2 ^ f) ≤ q * 2 ^ t + 2 ^ t := by
  set t := (divCore .binary64 m e k f).2.1 with ht
  have hle : t ≤ e - f := min_le_left _ _
  have hquotient : (divCore .binary64 m e k f).1 = m <<< (e - f - t).toNat / k := rfl
  have hvalue := value_shift m (e - f - t).toNat (e - f)
  have hplace : e - f - (e - f - t).toNat = t := by omega
  rw [hplace] at hvalue
  have hdividend : (m : ℚ) * 2 ^ e / (k * 2 ^ f) =
      (m <<< (e - f - t).toNat : ℕ) / k * 2 ^ t := by
    rw [div_mul_eq_mul_div, hvalue, zpow_sub₀ (by norm_num)]
    ring
  have hk' : (0 : ℚ) < k := Nat.cast_pos.mpr hk
  have hfloor : ((m <<< (e - f - t).toNat / k : ℕ) : ℚ) ≤ (m <<< (e - f - t).toNat : ℕ) / k :=
    Nat.cast_div_le
  have hceil : ((m <<< (e - f - t).toNat : ℕ) : ℚ) / k ≤ (m <<< (e - f - t).toNat / k : ℕ) + 1 := by
    rw [div_le_iff₀ hk', mul_comm]
    exact_mod_cast (Nat.lt_mul_div_succ _ hk).le
  dsimp only
  rw [hquotient, hdividend]
  refine ⟨mul_le_mul_of_nonneg_right hfloor (two_zpow_pos t).le,
    (mul_le_mul_of_nonneg_right hceil (two_zpow_pos t).le).trans_eq ?_⟩
  ring

/-- The quotient of two finite doubles. -/
theorem roundsTo_div (hu : u.isFinite) (hdu : (ofUnpacked u).IsDouble) (hv : v.isFinite)
    (hv0 : value v ≠ 0) (h : |value u / value v| < 2 ^ (1023 : ℤ)) :
    RoundsTo (value u / value v) (UnpackedFloat.div .binary64 u v) := by
  match u, v with
  | .notANumber, _ | .infinity _, _ => cases hu
  | _, .notANumber | _, .infinity _ => cases hv
  | _, .zero _ => exact absurd rfl hv0
  | .zero s, .finite t k f hk =>
    rw [show value (.zero s) = 0 from rfl, zero_div]
    exact ⟨rfl, hdu, Rounded.refl 0⟩
  | .finite s m e hm, .finite t k f hk =>
    obtain ⟨hplace, hq⟩ := divCore_place (e := e) (f := f) hm hk
    obtain ⟨hle, hge⟩ := value_divCore (m := m) (e := e) (f := f) hk
    have hpos : (0 : ℚ) < m * 2 ^ e / (k * 2 ^ f) :=
      div_pos (mul_pos (Nat.cast_pos.mpr hm) (two_zpow_pos e))
        (mul_pos (Nat.cast_pos.mpr hk) (two_zpow_pos f))
    have hvalue : value (.finite s m e hm) / value (.finite t k f hk) =
        (s / t).apply 1 * (m * 2 ^ e / (k * 2 ^ f)) := by
      rw [value, value, apply_mul, apply_mul, apply_div_apply]
    rw [hvalue] at h ⊢
    rw [abs_apply_mul _ hpos.le] at h
    exact roundsTo_roundWithAccuracy hq hplace hpos hle hge
      (fits_of_lt hplace (hle.trans_lt h) _) _

theorem apply_neg (s : Sign) (n : ℤ) : (-s).apply n = -s.apply n := by
  cases s with
  | positive => rfl
  | negative => exact (Int.neg_neg n).symm

/-- A difference is the sum with the opposite number. -/
theorem model_sub_eq (f : Format) (u v : UnpackedFloat) :
    UnpackedFloat.sub f u v = UnpackedFloat.add f u v.neg := by
  match u, v with
  | .notANumber, .notANumber | .notANumber, .infinity _ | .notANumber, .zero _
  | .notANumber, .finite .. | .infinity _, .notANumber | .zero _, .notANumber
  | .finite .., .notANumber | .infinity _, .infinity _ | .infinity _, .zero _
  | .infinity _, .finite .. | .zero _, .infinity _ | .finite .., .infinity _
  | .zero _, .zero _ | .zero _, .finite .. | .finite .., .zero _ => rfl
  | .finite s m e hm, .finite t k g hk =>
    simp only [UnpackedFloat.sub, UnpackedFloat.add, UnpackedFloat.neg, apply_neg,
      Int.sub_eq_add_neg]

theorem value_neg (u : UnpackedFloat) : value u.neg = -value u := by
  cases u with
  | notANumber | infinity s | zero s => exact neg_zero.symm
  | finite s m e hm => rw [UnpackedFloat.neg, value, value, apply_neg, Int.cast_neg, neg_mul]

end Operations

/-! ### Finite doubles -/

section Doubles

variable {a b : Float}

/-- The value of a finite double. -/
def doubleValue (a : Float) : ℚ := value (unpacked a)

theorem isDouble_unpacked (a : Float) : (ofUnpacked (unpacked a)).IsDouble := by
  rw [unpacked, ← ofFloat_eq]
  exact isDouble_ofFloat a

/-- What a finite double stands for, by its sign, mantissa and exponent. -/
theorem ofFloat_of_isFinite (h : a.isFinite) : ∃ (below : Bool) (m : ℕ) (e : ℤ),
    ofFloat a = .finite below m e ∧ doubleValue a = (if below then -1 else 1) * (m * 2 ^ e) := by
  rw [ofFloat_eq, doubleValue]
  change (unpacked a).isFinite at h
  change ∃ negative m e, ofUnpacked (unpacked a) = _ ∧ _
  cases hu : unpacked a with
  | notANumber | infinity s =>
    rw [hu] at h
    cases h
  | zero s => exact ⟨isNegative s, 0, minExponent, rfl, by simp [value]⟩
  | finite s m e hm =>
    refine ⟨isNegative s, m, e, rfl, ?_⟩
    rw [value, apply_mul]
    cases s <;> simp [isNegative, Sign.apply]

theorem RoundsTo.double {x : ℚ} {u : UnpackedFloat} (h : RoundsTo x u) :
    (Float.ofModel (Float.Model.pack u)).isFinite ∧
      Rounded x (doubleValue (Float.ofModel (Float.Model.pack u))) := by
  obtain ⟨hfinite, hdouble, hnear⟩ := h
  have hread : unpacked (Float.ofModel (Float.Model.pack u)) = u := repacked_eq hdouble
  refine ⟨?_, ?_⟩
  · change (unpacked (Float.ofModel (Float.Model.pack u))).isFinite
    rwa [hread]
  · rwa [doubleValue, hread]

/-- The result of an operation is finite and near to its exact value if this is in range. -/
theorem ExactRounding.isFinite_iff {x : ℚ} {u : UnpackedFloat} (h : ExactRounding x u) :
    (Float.ofModel (Float.Model.pack u)).isFinite ↔ |x| < brink :=
  ⟨fun hfinite => lt_of_not_ge fun hge => h.overflows hge hfinite,
    fun hlt => (h.near hlt).double.1⟩

theorem isFinite_add_iff (ha : a.isFinite) (hb : b.isFinite) :
    (a + b).isFinite ↔ |doubleValue a + doubleValue b| < brink :=
  (rounding_add ha hb (isDouble_unpacked a) (isDouble_unpacked b)).isFinite_iff

/-- **The sum of finite doubles** is near to the sum of the values if it is finite. -/
theorem rounded_add (ha : a.isFinite) (hb : b.isFinite) (h : (a + b).isFinite) :
    Rounded (doubleValue a + doubleValue b) (doubleValue (a + b)) :=
  ((rounding_add ha hb (isDouble_unpacked a) (isDouble_unpacked b)).near
    ((isFinite_add_iff ha hb).mp h)).double.2

theorem unpacked_neg (a : Float) : unpacked (-a) = (unpacked a).neg := by
  have hdouble := isDouble_unpacked a
  refine repacked_eq ?_
  change (ofUnpacked (unpacked a).neg).IsDouble
  cases hu : unpacked a with
  | notANumber | infinity s => trivial
  | zero s | finite s m e hm =>
    rw [hu] at hdouble
    exact hdouble

theorem doubleValue_neg (a : Float) : doubleValue (-a) = -doubleValue a := by
  rw [doubleValue, unpacked_neg, value_neg, doubleValue]

theorem isFinite_neg_iff : (-a).isFinite ↔ a.isFinite := by
  change (unpacked (-a)).isFinite ↔ (unpacked a).isFinite
  rw [unpacked_neg]
  cases unpacked a <;> rfl

theorem double_sub_eq (a b : Float) : a - b = a + -b := by
  refine congrArg (fun u => Float.ofModel (Float.Model.pack u)) ?_
  rw [model_sub_eq]
  exact congrArg _ (unpacked_neg b).symm

theorem isFinite_sub_iff (ha : a.isFinite) (hb : b.isFinite) :
    (a - b).isFinite ↔ |doubleValue a - doubleValue b| < brink := by
  rw [double_sub_eq, isFinite_add_iff ha (isFinite_neg_iff.mpr hb), doubleValue_neg, sub_eq_add_neg]

theorem rounded_sub (ha : a.isFinite) (hb : b.isFinite) (h : (a - b).isFinite) :
    Rounded (doubleValue a - doubleValue b) (doubleValue (a - b)) := by
  rw [double_sub_eq] at h ⊢
  rw [sub_eq_add_neg, ← doubleValue_neg]
  exact rounded_add ha (isFinite_neg_iff.mpr hb) h

theorem isFinite_mul_iff (ha : a.isFinite) (hb : b.isFinite) :
    (a * b).isFinite ↔ |doubleValue a * doubleValue b| < brink :=
  (rounding_mul ha hb (isDouble_unpacked a) (isDouble_unpacked b)).isFinite_iff

theorem rounded_mul (ha : a.isFinite) (hb : b.isFinite) (h : (a * b).isFinite) :
    Rounded (doubleValue a * doubleValue b) (doubleValue (a * b)) :=
  ((rounding_mul ha hb (isDouble_unpacked a) (isDouble_unpacked b)).near
    ((isFinite_mul_iff ha hb).mp h)).double.2

theorem rounded_div (ha : a.isFinite) (hb : b.isFinite) (hb0 : doubleValue b ≠ 0)
    (h : |doubleValue a / doubleValue b| < 2 ^ (1023 : ℤ)) :
    (a / b).isFinite ∧ Rounded (doubleValue a / doubleValue b) (doubleValue (a / b)) :=
  (roundsTo_div ha (isDouble_unpacked a) hb hb0 h).double

theorem abs_doubleValue_le (a : Float) : |doubleValue a| ≤ brink - 2 ^ (970 : ℤ) :=
  abs_value_le (isDouble_unpacked a)

end Doubles

end Scrawl.Decimal
