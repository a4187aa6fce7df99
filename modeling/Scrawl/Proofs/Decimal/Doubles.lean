import Mathlib
import Scrawl.Decimal.Numeral

/-!
# Scrawl.Proofs.Decimal.Doubles — values that are doubles

A finite value is that of a double if its mantissa has at most 53 bits, and exactly that many unless
the exponent is least.

* `toBits_ofBits`: a bit pattern that is not all ones in its exponent is that of its double.
* `ofFloat_toFloat`: a value that is that of a double is read back from it.
* `isDouble_ofRatio`, `isDouble_toBinary`: rounding a quotient, or a numeral, gives such a value.
-/

namespace Scrawl.Decimal

/-! ### Bit patterns -/

section Bits

open Float.Model (Format)
open Float.Model.UnpackedFloat

variable {v : BitVec Format.binary64.numBits}

/-- A word is its sign, its exponent and its mantissa. -/
theorem packComponents_unpack (v : BitVec Format.binary64.numBits) :
    packComponents .binary64 (.ofBitVec (unpackSign v)) (unpackExponent v) (unpackMantissa v) =
      v := by
  have hsign : ∀ b : BitVec 1, (Sign.ofBitVec b).toBitVec = b := by decide
  simp only [packComponents, hsign, unpackSign, unpackExponent, unpackMantissa]
  ext i hi
  simp
  grind

theorem packComponents_eq {e : BitVec 11} {m : BitVec 52} (he : unpackExponent v = e)
    (hm : unpackMantissa v = m) :
    packComponents .binary64 (.ofBitVec (unpackSign v)) e m = v := by
  subst he hm
  exact packComponents_unpack v

/-- A mantissa with its leading bit. -/
theorem toNat_leading (m : BitVec 52) : (1#1 ++ m).toNat = 2 ^ 52 + m.toNat := by
  rw [BitVec.toNat_append, Nat.shiftLeft_eq, BitVec.toNat_ofNat, Nat.mul_comm,
    ← Nat.two_pow_add_eq_or_of_lt m.isLt]
  rfl

theorem pack_unpack (h : (unpackExponent v).toNat ≠ 2047) :
    Float.Model.UnpackedFloat.pack .binary64 (Float.Model.UnpackedFloat.unpack .binary64 v) =
      v := by
  have hm : (unpackMantissa v).toNat < 2 ^ 52 := (unpackMantissa v).isLt
  have he : (unpackExponent v).toNat < 2 ^ 11 := (unpackExponent v).isLt
  rw [Float.Model.UnpackedFloat.unpack]
  split
  · next hexp => exact absurd (congrArg BitVec.toNat hexp) h
  · split
    · next hexp =>
      split
      · next hman => exact packComponents_eq hexp hman
      · next hman =>
        -- a mantissa without its leading bit is told by its size
        have hzero : (unpackExponent v).toNat = 0 := congrArg BitVec.toNat hexp
        have hlog : (unpackMantissa v).toNat.log2 < 52 :=
          (Nat.log2_lt fun h0 => hman (BitVec.toNat_inj.mp h0)).mpr hm
        rw [Float.Model.UnpackedFloat.pack, hzero, if_neg (by decide),
          if_neg (by change ¬ _ = 53; omega)]
        exact packComponents_eq hexp (by simp)
    · next hexp =>
      have hone : (1#1 ++ unpackMantissa v).toNat = 2 ^ 52 + (unpackMantissa v).toNat :=
        toNat_leading _
      have hlog : (1#1 ++ unpackMantissa v).toNat.log2 = 52 := by
        rw [hone]
        exact (Nat.log2_eq_iff (by omega)).mpr ⟨by omega, by omega⟩
      have hbias : ((unpackExponent v).toNat - ((Format.binary64.exponentBias : ℤ) +
          (Format.binary64.mantissaBitsWithoutImplicit : ℤ)) + (Format.binary64.exponentBias : ℤ) +
          (Format.binary64.mantissaBitsWithoutImplicit : ℤ)).toNat =
          (unpackExponent v).toNat := by omega
      rw [Float.Model.UnpackedFloat.pack, hbias, if_neg, if_pos]
      · refine packComponents_eq (by simp) (BitVec.toNat_inj.mp ?_)
        rw [BitVec.toNat_ofNat, hone]
        exact (Nat.add_mod_left _ _).symm ▸ (Nat.mod_eq_of_lt hm).symm
      · rw [hlog]
        rfl
      · change ¬ 2 ^ 11 ≤ _
        omega

/-- A bit pattern that is not all ones in its exponent is that of its double. -/
theorem toBits_ofBits {u : UInt64} (h : u.toNat / 2 ^ 52 % 2048 ≠ 2047) :
    (Float.ofBits u).toBits = u := by
  have hexp : (@unpackExponent .binary64 u.toBitVec).toNat =
      u.toNat / 2 ^ 52 % 2048 := by
    simp [unpackExponent, Nat.shiftRight_eq_div_pow]
  exact congrArg UInt64.ofBitVec (pack_unpack (hexp ▸ h))

end Bits

/-! ### Values of doubles -/

namespace Binary

/-- Whether a value is that of a double. -/
def IsDouble : Binary → Prop
  | finite _ m e =>
    m < 2 ^ 53 ∧ (2 ^ 52 ≤ m ∨ e = minExponent) ∧ minExponent ≤ e ∧ e ≤ maxExponent
  | _ => True

section Fields

variable {negative : Bool} {x f : ℕ}

/-- What a double is by the fields of its bit pattern: sign, exponent and mantissa. -/
theorem ofFloat_of_fields {a : Float}
    (h : a.toBits.toNat = negative.toNat * 2 ^ 63 + x * 2 ^ 52 + f) (hx : x < 2047)
    (hf : f < 2 ^ 52) : ofFloat a =
      if x = 0 then finite negative f minExponent
      else finite negative (f + 2 ^ 52) ((x : ℤ) - 1075) := by
  have hs : negative.toNat ≤ 1 := Bool.toNat_le negative
  have hsign : (a.toBits.toNat / pow2 63 == 1) = negative := by
    rw [h, show pow2 63 = 2 ^ 63 from rfl]
    cases negative <;> simp <;> omega
  have hfield : a.toBits.toNat / pow2 52 % 2048 = x := by
    rw [h, show pow2 52 = 2 ^ 52 from rfl]
    omega
  have hfraction : a.toBits.toNat % pow2 52 = f := by
    rw [h, show pow2 52 = 2 ^ 52 from rfl]
    omega
  simp only [ofFloat, hsign, hfield, hfraction, beq_iff_eq, hx.ne, if_false]
  rfl

theorem toNat_bits_toFloat {b : Binary} (h : b.bits = negative.toNat * 2 ^ 63 + x * 2 ^ 52 + f)
    (hx : x < 2047) (hf : f < 2 ^ 52) : b.toFloat.toBits.toNat = b.bits := by
  have hs : negative.toNat ≤ 1 := Bool.toNat_le negative
  have hnat : (UInt64.ofNat b.bits).toNat = b.bits := by
    rw [UInt64.toNat_ofNat']
    exact Nat.mod_eq_of_lt (by omega)
  rw [toFloat, toBits_ofBits (by rw [hnat]; omega), hnat]

end Fields

/-- **A finite value that is that of a double is read back from it.** -/
theorem ofFloat_toFloat {negative : Bool} {m : ℕ} {e : ℤ} (h : (finite negative m e).IsDouble) :
    ofFloat (finite negative m e).toFloat = finite negative m e := by
  obtain ⟨hm, hnormal, hlow, hhigh⟩ := h
  simp only [minExponent, maxExponent] at hnormal hlow hhigh
  have hsign : (if negative then pow2 63 else 0) = negative.toNat * 2 ^ 63 := by
    cases negative <;> rfl
  have h52 : pow2 52 = 2 ^ 52 := rfl
  by_cases hsub : m < 2 ^ 52
  · have hbits : (finite negative m e).bits = negative.toNat * 2 ^ 63 + 0 * 2 ^ 52 + m := by
      rw [bits, hsign, h52, if_pos hsub, Nat.zero_mul, Nat.add_zero]
    have hread := (toNat_bits_toFloat hbits (by omega) hsub).trans hbits
    rw [ofFloat_of_fields hread (by omega) hsub, if_pos rfl, minExponent]
    congr 1
    omega
  · have hbits : (finite negative m e).bits =
        negative.toNat * 2 ^ 63 + (e + 1075).toNat * 2 ^ 52 + (m - 2 ^ 52) := by
      rw [bits, hsign, h52, if_neg hsub, Nat.add_assoc]
    have hread := (toNat_bits_toFloat hbits (by omega) (by omega)).trans hbits
    rw [ofFloat_of_fields hread (by omega) (by omega), if_neg (by omega),
      Nat.sub_add_cancel (by omega), Int.toNat_of_nonneg (by omega), Int.add_sub_cancel]

/-! ### Rounding gives doubles -/

section Rounding

variable {num den p q k : ℕ}

theorem mul_pow_lt (hden : den ≠ 0) (h : num.log2 + 1 + p ≤ k + den.log2 + q) :
    num * 2 ^ p < 2 ^ k * (den * 2 ^ q) := by
  have hlow : 2 ^ den.log2 ≤ den := Nat.log2_self_le hden
  calc num * 2 ^ p < 2 ^ (num.log2 + 1) * 2 ^ p :=
        Nat.mul_lt_mul_of_pos_right Nat.lt_log2_self (Nat.two_pow_pos p)
    _ = 2 ^ (num.log2 + 1 + p) := (Nat.pow_add ..).symm
    _ ≤ 2 ^ (k + den.log2 + q) := Nat.pow_le_pow_right (by omega) h
    _ = 2 ^ k * (2 ^ den.log2 * 2 ^ q) := by rw [Nat.pow_add, Nat.pow_add, Nat.mul_assoc]
    _ ≤ 2 ^ k * (den * 2 ^ q) := by gcongr

theorem pow_mul_le (hnum : num ≠ 0) (h : k + den.log2 + 1 + q ≤ num.log2 + p) :
    2 ^ k * (den * 2 ^ q) ≤ num * 2 ^ p := by
  have hlow : 2 ^ num.log2 ≤ num := Nat.log2_self_le hnum
  have hhigh : den ≤ 2 ^ (den.log2 + 1) := Nat.lt_log2_self.le
  calc 2 ^ k * (den * 2 ^ q) ≤ 2 ^ k * (2 ^ (den.log2 + 1) * 2 ^ q) := by gcongr
    _ = 2 ^ (k + den.log2 + 1 + q) := by
        rw [← Nat.pow_add, ← Nat.pow_add]
        congr 1
        omega
    _ ≤ 2 ^ (num.log2 + p) := Nat.pow_le_pow_right (by omega) h
    _ = 2 ^ num.log2 * 2 ^ p := Nat.pow_add ..
    _ ≤ num * 2 ^ p := by gcongr

theorem divNearest_bounds :
    num / den ≤ divNearest num den ∧ divNearest num den ≤ num / den + 1 := by
  simp only [divNearest]
  split_ifs <;> omega

/-- The whole part of a quotient scaled by a power of two. -/
def scaledFloor (num den : ℕ) (e : ℤ) : ℕ := (scaled num den e).1 / (scaled num den e).2

theorem scaledFloor_lt {e : ℤ} (hden : den ≠ 0) (h : (num.log2 : ℤ) + 1 ≤ k + den.log2 + e) :
    scaledFloor num den e < 2 ^ k :=
  (Nat.div_lt_iff_lt_mul (Nat.mul_pos (Nat.pos_of_ne_zero hden) (Nat.two_pow_pos _))).mpr
    (mul_pow_lt hden (by omega))

theorem le_scaledFloor {e : ℤ} (hnum : num ≠ 0) (hden : den ≠ 0)
    (h : (k : ℤ) + den.log2 + 1 + e ≤ num.log2) : 2 ^ k ≤ scaledFloor num den e :=
  (Nat.le_div_iff_mul_le (Nat.mul_pos (Nat.pos_of_ne_zero hden) (Nat.two_pow_pos _))).mpr
    (pow_mul_le hnum (by omega))

/-- One place less halves the whole part. -/
theorem scaledFloor_succ (num den : ℕ) (e : ℤ) :
    scaledFloor num den (e + 1) = scaledFloor num den e / 2 := by
  simp only [scaledFloor, scaled, pow2, Nat.div_div_eq_div_mul]
  rcases le_or_gt 0 e with he | he
  · rw [Int.toNat_of_nonpos (by omega : -(e + 1) ≤ 0), Int.toNat_of_nonpos (by omega : -e ≤ 0),
      Int.toNat_add he (by decide)]
    simp [Nat.pow_succ, Nat.mul_assoc]
  · rw [Int.toNat_of_nonpos (by omega : e ≤ 0), Int.toNat_of_nonpos (by omega : e + 1 ≤ 0),
      show (-e).toNat = (-(e + 1)).toNat + 1 by omega]
    simp only [Nat.pow_eq, Nat.pow_zero, Nat.mul_one, Nat.pow_succ, ← Nat.mul_assoc]
    exact (Nat.mul_div_mul_right _ _ (by decide)).symm

/-- The least exponent that a quotient may be rounded at. -/
def lowPlace (num den : ℕ) : ℤ := max ((num.log2 : ℤ) - den.log2 - 53) minExponent

/-- The exponent that a quotient is rounded at. -/
def place (num den : ℕ) : ℤ :=
  if scaledFloor num den (lowPlace num den) < 2 ^ 53 then lowPlace num den
  else lowPlace num den + 1

theorem scaledFloor_place (hnum : num ≠ 0) (hden : den ≠ 0) :
    minExponent ≤ place num den ∧ scaledFloor num den (place num den) < 2 ^ 53 ∧
      (2 ^ 52 ≤ scaledFloor num den (place num den) ∨ place num den = minExponent) := by
  have hle : minExponent ≤ lowPlace num den := le_max_right _ _
  unfold place
  split_ifs with h
  · refine ⟨hle, h, ?_⟩
    rcases max_choice ((num.log2 : ℤ) - den.log2 - 53) minExponent with hlow | hlow
    · refine Or.inl (le_scaledFloor hnum hden ?_)
      rw [lowPlace, hlow]
      omega
    · exact Or.inr hlow
  · have hlt : scaledFloor num den (lowPlace num den) < 2 ^ 54 :=
      scaledFloor_lt hden (by rw [lowPlace]; omega)
    rw [scaledFloor_succ]
    omega

/-- A quotient by its mantissa at the place, which may have one bit too many. -/
theorem ofRatio_eq (negative : Bool) (hnum : num ≠ 0) : ofRatio negative num den =
    let m := divNearest (scaled num den (place num den)).1 (scaled num den (place num den)).2
    let r := if m < 2 ^ 53 then (m, place num den) else (2 ^ 52, place num den + 1)
    if maxExponent < r.2 then .infinite negative else .finite negative r.1 r.2 := by
  rw [ofRatio, if_neg (by simpa using hnum)]
  rfl

/-- **A quotient rounded to the nearest double is the value of a double.** -/
theorem isDouble_ofRatio (negative : Bool) (hden : den ≠ 0) :
    (ofRatio negative num den).IsDouble := by
  by_cases hnum : num = 0
  · simp [ofRatio, hnum, IsDouble, minExponent, maxExponent]
  · obtain ⟨hle, hlt, hnormal⟩ := scaledFloor_place hnum hden
    obtain ⟨hfloor, hceil⟩ : scaledFloor num den (place num den) ≤ _ ∧
        _ ≤ scaledFloor num den (place num den) + 1 := divNearest_bounds
    rw [ofRatio_eq negative hnum]
    set m := divNearest (scaled num den (place num den)).1 (scaled num den (place num den)).2
    dsimp only
    split_ifs with hm hmax hmax
    · trivial
    · exact ⟨hm, by omega, hle, by omega⟩
    · trivial
    · exact ⟨by dsimp only; omega, Or.inl (le_refl _), by dsimp only; omega, by omega⟩

end Rounding

/-- The value of a numeral is that of a double. -/
theorem isDouble_toBinary (n : Numeral) : n.toBinary.IsDouble := by
  cases n with
  | nan => trivial
  | infinite negative => trivial
  | decimal negative digits place =>
    simp only [Numeral.toBinary]
    split_ifs
    · simp [IsDouble, minExponent, maxExponent]
    · trivial
    · have hpow : 0 < pow10 (-place).toNat := Nat.pow_pos (by decide)
      exact isDouble_ofRatio negative hpow.ne'

end Binary

end Scrawl.Decimal
