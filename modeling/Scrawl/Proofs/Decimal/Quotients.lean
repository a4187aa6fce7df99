import Scrawl.Proofs.Decimal.Doubles
import Scrawl.Scalar

/-!
# Scrawl.Proofs.Decimal.Quotients — quotients and comparisons of doubles

* `ofFloat_eq`: the value of a double is that of the number it stands for in the model of floats.
* `below_roundWithAccuracy`, `ofFloat_pack`: rounding and packing keep what does not overflow
  finite.
* `ofFloat_div`: a finite double divided by 96 is finite, and not too large.
* `nonneg_of_lt`: what is larger than a positive double is not negative.
-/

namespace Scrawl.Decimal.Binary

open Float.Model (Format UnpackedFloat totalExponent)
open Float.Model.UnpackedFloat

/-! ### Values in the model -/

/-- Whether a sign is the negative one. -/
def isNegative : Sign → Bool
  | .negative => true
  | .positive => false

/-- The value that a number of the model has. -/
def ofUnpacked : UnpackedFloat → Binary
  | .notANumber => nan
  | .infinity s => infinite (isNegative s)
  | .zero s => finite (isNegative s) 0 minExponent
  | .finite s m e _ => finite (isNegative s) m e

theorem isNegative_ofBitVec (b : BitVec 1) : isNegative (.ofBitVec b) = (b.toNat == 1) := by
  have hall : ∀ b : BitVec 1, isNegative (.ofBitVec b) = (b.toNat == 1) := by decide
  exact hall b

section Fields

variable (a : Float)

theorem toNat_unpackSign :
    (@unpackSign .binary64 a.toBits.toBitVec).toNat = a.toBits.toNat / 2 ^ 63 := by
  have hlt := a.toBits.toNat_lt
  simp [unpackSign, Nat.shiftRight_eq_div_pow]
  omega

theorem toNat_unpackExponent :
    (@unpackExponent .binary64 a.toBits.toBitVec).toNat = a.toBits.toNat / 2 ^ 52 % 2048 := by
  simp [unpackExponent, Nat.shiftRight_eq_div_pow]

theorem toNat_unpackMantissa :
    (@unpackMantissa .binary64 a.toBits.toBitVec).toNat = a.toBits.toNat % 2 ^ 52 := by
  simp [unpackMantissa]

/-- The value by the fields of a bit pattern. -/
theorem ofFloat_eq_fields : ofFloat a =
    let negative := isNegative (.ofBitVec (@unpackSign .binary64 a.toBits.toBitVec))
    let field := (@unpackExponent .binary64 a.toBits.toBitVec).toNat
    let fraction := (@unpackMantissa .binary64 a.toBits.toBitVec).toNat
    if field = 2047 then if fraction = 0 then infinite negative else nan
    else if field = 0 then finite negative fraction minExponent
    else finite negative (fraction + 2 ^ 52) ((field : ℤ) - 1075) := by
  dsimp only
  rw [isNegative_ofBitVec, toNat_unpackSign, toNat_unpackExponent, toNat_unpackMantissa]
  simp only [ofFloat, beq_iff_eq]
  rfl

/-- **The value of a double is that of the number it stands for** in the model. -/
theorem ofFloat_eq : ofFloat a = ofUnpacked a.toModel.unpack := by
  rw [ofFloat_eq_fields]
  change _ = ofUnpacked (Float.Model.UnpackedFloat.unpack .binary64 a.toBits.toBitVec)
  set v : BitVec Format.binary64.numBits := a.toBits.toBitVec
  have hzero : unpackExponent v = 0#_ ↔ (unpackExponent v).toNat = 0 := by
    rw [← BitVec.toNat_inj]
    rfl
  have hones : unpackExponent v = -1#_ ↔ (unpackExponent v).toNat = 2047 := by
    rw [← BitVec.toNat_inj]
    rfl
  have hfraction : unpackMantissa v = 0#_ ↔ (unpackMantissa v).toNat = 0 := by
    rw [← BitVec.toNat_inj]
    rfl
  unfold Float.Model.UnpackedFloat.unpack
  dsimp only
  by_cases hx : (unpackExponent v).toNat = 2047
  · rw [if_pos hx, if_pos (hones.mpr hx)]
    by_cases hm : (unpackMantissa v).toNat = 0
    · rw [if_pos hm, if_pos (hfraction.mpr hm)]
      rfl
    · rw [if_neg hm, if_neg (mt hfraction.mp hm)]
      rfl
  · rw [if_neg hx, if_neg (mt hones.mp hx)]
    by_cases hx0 : (unpackExponent v).toNat = 0
    · rw [if_pos hx0, if_pos (hzero.mpr hx0)]
      by_cases hm : (unpackMantissa v).toNat = 0
      · rw [dif_pos (hfraction.mpr hm), hm]
        rfl
      · rw [dif_neg (mt hfraction.mp hm), ofUnpacked, hx0]
        rfl
    · rw [if_neg hx0, if_neg (mt hzero.mp hx0), ofUnpacked, toNat_leading, Nat.add_comm]
      rfl

end Fields

/-! ### Rounding in the model -/

/-- A finite number of the model with a mantissa of at most 53 bits and an exponent of at most
`top`. -/
def Below (top : ℤ) : UnpackedFloat → Prop
  | .zero _ => True
  | .finite _ m e _ => m < 2 ^ 53 ∧ e ≤ top
  | _ => False

section Rounding

variable {m : ℕ} {e : ℤ}

theorem mantissa_shiftRight (em : ExtendedMantissa) (k : ℕ) :
    (em >>> k).mantissa = em.mantissa / 2 ^ k := by
  induction k with
  | zero => exact (Nat.div_one _).symm
  | succ k ih =>
    have hstep : (em >>> (k + 1)).mantissa = (em >>> k).mantissa / 2 := rfl
    rw [hstep, ih, Nat.div_div_eq_div_mul, Nat.pow_succ]

theorem roundedMantissa_le (em : ExtendedMantissa) : em.roundedMantissa ≤ em.mantissa + 1 := by
  obtain ⟨m, r, s⟩ := em
  cases r <;> cases s <;>
    simp only [ExtendedMantissa.roundedMantissa, ExtendedMantissa.accuracy,
      Accuracy.roundToNearestEven] <;> omega

theorem mantissa_ofMantissaAndAccuracy (a : Accuracy) :
    (ExtendedMantissa.ofMantissaAndAccuracy m a).mantissa = m := by
  cases a with
  | exact => rfl
  | inexact o => cases o <;> rfl

/-- Shifting to the exponent of the format leaves 53 bits, and takes one place at most from a
mantissa of 54. -/
theorem shiftToTargetExponent_bounds (hm : m < 2 ^ 54) (a : Accuracy) :
    (shiftToTargetExponent .binary64 m e a).1.mantissa < 2 ^ 53 ∧
      (shiftToTargetExponent .binary64 m e a).2 ≤ max (e + 1) minExponent := by
  have hlog : m.log2 ≤ 53 := by
    by_cases h0 : m = 0
    · simp [h0]
    · exact Nat.lt_succ_iff.mp ((Nat.log2_lt h0).mpr hm)
  set t := Format.binary64.targetExponent (totalExponent m e) with ht
  have ht' : t = max ((m.log2 : ℤ) + 1 + e - 53) (-1074) := rfl
  have hmantissa : (shiftToTargetExponent .binary64 m e a).1.mantissa =
      m / 2 ^ (t - e).toNat :=
    (mantissa_shiftRight _ _).trans (by rw [mantissa_ofMantissaAndAccuracy])
  have hexponent : (shiftToTargetExponent .binary64 m e a).2 = e + (t - e).toNat := rfl
  rw [hmantissa, hexponent, Nat.div_lt_iff_lt_mul (Nat.two_pow_pos _), ← Nat.pow_add]
  constructor
  · exact Nat.lt_log2_self.trans_le (Nat.pow_le_pow_right (by decide) (by omega))
  · rw [minExponent]
    omega

/-- Rounding takes two places at most from a mantissa of 54 bits. -/
theorem below_roundWithAccuracy (hm : m < 2 ^ 54) {top : ℤ} (he : e + 2 ≤ top)
    (htop : minExponent < top) (s : Sign) (a : Accuracy) :
    Below top (roundWithAccuracy .binary64 s m e a) := by
  obtain ⟨hfirst, hplace⟩ := shiftToTargetExponent_bounds (e := e) hm a
  have hround := roundedMantissa_le (shiftToTargetExponent .binary64 m e a).1
  obtain ⟨hsecond, hplace'⟩ := shiftToTargetExponent_bounds
    (e := (shiftToTargetExponent .binary64 m e a).2)
    (m := (shiftToTargetExponent .binary64 m e a).1.roundedMantissa) (by omega) .exact
  rw [roundWithAccuracy]
  dsimp only
  split_ifs
  · trivial
  · exact ⟨hsecond, by omega⟩

/-- A quotient by a number between 64 and 128 that is given by 53 bits has at most 54 bits. -/
theorem divCore_bounds {k : ℕ} (hm0 : m ≠ 0) (hm : m < 2 ^ 53) (hk : k.log2 = 52) :
    (divCore .binary64 m e k (-46)).1 < 2 ^ 54 ∧
      (divCore .binary64 m e k (-46)).2.1 ≤ max (e - 7) minExponent := by
  have hlog : m.log2 < 53 := (Nat.log2_lt hm0).mpr hm
  have hk0 : k ≠ 0 := by
    rintro rfl
    simp at hk
  have hlow : 2 ^ 52 ≤ k := hk ▸ Nat.log2_self_le hk0
  set t := min (e - -46)
    (Format.binary64.targetExponent (totalExponent m e - totalExponent k (-46))) with ht
  have ht' : t = min (e - -46)
      (max ((m.log2 : ℤ) + 1 + e - ((k.log2 : ℤ) + 1 + -46) - 53) (-1074)) := rfl
  rw [hk] at ht'
  have hquotient : (divCore .binary64 m e k (-46)).1 = m <<< (e - -46 - t).toNat / k := rfl
  have hexponent : (divCore .binary64 m e k (-46)).2.1 = t := rfl
  rw [hquotient, hexponent, Nat.shiftLeft_eq, Nat.div_lt_iff_lt_mul (Nat.pos_of_ne_zero hk0)]
  constructor
  · calc m * 2 ^ (e - -46 - t).toNat
        < 2 ^ (m.log2 + 1) * 2 ^ (e - -46 - t).toNat :=
          Nat.mul_lt_mul_of_pos_right Nat.lt_log2_self (Nat.two_pow_pos _)
      _ = 2 ^ (m.log2 + 1 + (e - -46 - t).toNat) := (Nat.pow_add ..).symm
      _ ≤ 2 ^ (54 + 52) := Nat.pow_le_pow_right (by decide) (by omega)
      _ = 2 ^ 54 * 2 ^ 52 := Nat.pow_add ..
      _ ≤ 2 ^ 54 * k := by gcongr
  · rw [minExponent]
    omega

end Rounding

/-! ### Finite doubles -/

section Finite

variable {a b : Float} {negative : Bool} {m : ℕ} {e : ℤ}

theorem ofFloat_bounds (h : ofFloat a = finite negative m e) :
    m < 2 ^ 53 ∧ e ≤ maxExponent := by
  have hfield : (@unpackExponent .binary64 a.toBits.toBitVec).toNat < 2048 :=
    (unpackExponent _).isLt
  have hfraction : (@unpackMantissa .binary64 a.toBits.toBitVec).toNat < 2 ^ 52 :=
    (unpackMantissa _).isLt
  rw [ofFloat_eq_fields] at h
  dsimp only at h
  split_ifs at h <;> cases h
  · exact ⟨by omega, by decide⟩
  · rw [maxExponent]
    omega

theorem below_unpack (h : a.isFinite) : Below maxExponent a.toModel.unpack := by
  have hvalue := ofFloat_eq a
  change UnpackedFloat.isFinite a.toModel.unpack = true at h
  cases hu : a.toModel.unpack with
  | zero s => trivial
  | finite s m e hm => exact ofFloat_bounds (hvalue.trans (congrArg ofUnpacked hu))
  | infinity s => rw [hu] at h; cases h
  | notANumber => rw [hu] at h; cases h

/-- A bit pattern that is not all ones in its exponent is that of a finite double. -/
theorem ofFloat_of_components {s : Sign} {x : BitVec 11} {f : BitVec 52}
    (h : a.toBits.toBitVec = packComponents .binary64 s x f) (hx : x.toNat < 2047) :
    ∃ negative m e, ofFloat a = finite negative m e ∧ m < 2 ^ 53 ∧
      e ≤ max ((x.toNat : ℤ) - 1075) minExponent := by
  have hf : f.toNat < 2 ^ 52 := f.isLt
  rw [ofFloat_eq_fields, h, unpackExponent_packComponents, unpackMantissa_packComponents]
  dsimp only
  rw [if_neg hx.ne]
  split_ifs
  · exact ⟨_, _, _, rfl, by omega, le_max_right _ _⟩
  · exact ⟨_, _, _, rfl, by omega, le_max_left _ _⟩

/-- The exponent field of a number of the model. -/
theorem toNat_biased (e : ℤ) : (e + (Format.binary64.exponentBias : ℤ) +
    (Format.binary64.mantissaBitsWithoutImplicit : ℤ)).toNat = (e + 1075).toNat := by
  change (e + 1023 + 52).toNat = _
  omega

/-- A finite number of the model that does not overflow is packed into a finite double. -/
theorem ofFloat_pack {u : UnpackedFloat} {top : ℤ} (h : Below top u) (hlow : minExponent ≤ top)
    (hhigh : top ≤ maxExponent) : ∃ negative m e,
      ofFloat ⟨Float.Model.pack u⟩ = finite negative m e ∧ m < 2 ^ 53 ∧ e ≤ top := by
  obtain ⟨s, x, f, hbits, hx, hle⟩ : ∃ (s : Sign) (x : BitVec 11) (f : BitVec 52),
      Float.Model.UnpackedFloat.pack .binary64 u = packComponents .binary64 s x f ∧
        x.toNat < 2047 ∧ (x.toNat : ℤ) ≤ top + 1075 := by
    rw [minExponent] at hlow
    rw [maxExponent] at hhigh
    cases u with
    | zero s => exact ⟨s, 0, 0, rfl, by decide, by simp; omega⟩
    | notANumber | infinity s => exact h.elim
    | finite s m e hm =>
      obtain ⟨-, he⟩ := h
      rw [Float.Model.UnpackedFloat.pack, toNat_biased, if_neg (by change ¬ 2 ^ 11 ≤ _; omega)]
      split_ifs
      · have hx : (BitVec.ofNat 11 (e + 1075).toNat).toNat = (e + 1075).toNat := by
          rw [BitVec.toNat_ofNat, Nat.mod_eq_of_lt (by omega)]
        exact ⟨s, BitVec.ofNat 11 (e + 1075).toNat, _, rfl, by omega, by omega⟩
      · exact ⟨s, 0#11, _, rfl, by decide, by simp; omega⟩
  obtain ⟨negative, m, e, hvalue, hm, he⟩ := ofFloat_of_components (a := ⟨Float.Model.pack u⟩)
    hbits hx
  exact ⟨negative, m, e, hvalue, hm, by omega⟩

/-- **A finite double divided by 96 is finite**, and not too large. -/
theorem ofFloat_div (h : a.isFinite) : ∃ negative m e,
    ofFloat (a / 96.0) = finite negative m e ∧ m < 2 ^ 53 ∧ e ≤ 967 := by
  have hden : (96.0 : Float).toModel.unpack =
      .finite .positive 6755399441055744 (-46) (by decide) := rfl
  have hbelow : Below 967 (UnpackedFloat.div .binary64 a.toModel.unpack
      (96.0 : Float).toModel.unpack) := by
    have ha := below_unpack h
    rw [hden]
    cases hu : a.toModel.unpack with
    | zero s => trivial
    | notANumber | infinity s =>
      rw [hu] at ha
      exact ha.elim
    | finite s m e hm =>
      rw [hu] at ha
      obtain ⟨hlt, he⟩ := ha
      obtain ⟨hquotient, hplace⟩ := divCore_bounds (e := e) (k := 6755399441055744) hm.ne' hlt
        (by decide +kernel)
      refine below_roundWithAccuracy (e := (divCore .binary64 m e 6755399441055744 (-46)).2.1)
        hquotient ?_ (by decide) _ _
      simp only [minExponent, maxExponent] at he hplace
      omega
  exact ofFloat_pack hbelow (by decide) (by decide)

/-- What is larger than a positive double is not negative. -/
theorem nonneg_of_lt {k : ℕ} {f : ℤ} (ha : ofFloat a = finite false m e) (hm : m ≠ 0)
    (hb : ofFloat b = finite negative k f) (h : a < b) : negative = false := by
  have hlt : a.lt b = true := h
  have hcompare : UnpackedFloat.lt a.toModel.unpack b.toModel.unpack = true :=
    of_decide_eq_true (p := a.toModel < b.toModel) hlt
  rw [ofFloat_eq] at ha hb
  -- a number that is neither a zero nor negative is less than another one only if that is so, too
  cases hua : a.toModel.unpack with
  | zero s =>
    rw [hua] at ha
    exact absurd (Binary.finite.inj ha).2.1.symm hm
  | notANumber | infinity s =>
    rw [hua] at ha
    cases ha
  | finite s m' e' hm' =>
    rw [hua] at ha hcompare
    cases s with
    | negative => cases ha
    | positive =>
      cases hub : b.toModel.unpack with
      | zero s =>
        rw [hub] at hcompare
        cases hcompare
      | notANumber | infinity s =>
        rw [hub] at hb
        cases hb
      | finite s k' f' hk' =>
        rw [hub] at hb hcompare
        cases s with
        | negative => cases hcompare
        | positive =>
          cases hb
          rfl

end Finite

end Scrawl.Decimal.Binary
