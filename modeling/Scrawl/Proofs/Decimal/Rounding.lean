import Scrawl.Proofs.Decimal.Quotients

/-!
# Scrawl.Proofs.Decimal.Rounding — how far rounding goes

Doubles are computed with in the model of floats, and every result is rounded to a mantissa of 53
bits.  The rounded value has the sign of the exact one and differs from it by two places at most,
and it is finite as long as the exact value does not reach half a place above the largest double.

* `repacked_eq`, `eq_of_unpacked_eq`: doubles are read back from what they stand for.
* `roundsTo_roundWithAccuracy`: rounding of a mantissa and what is left behind it.
* `rounding_normalize`: rounding of a signed mantissa, which overflows from there on.
-/

namespace Scrawl.Decimal

open Float.Model (Format UnpackedFloat totalExponent)
open Float.Model.UnpackedFloat
open Binary

/-! ### Numbers of the model -/

/-- The number of the model that a double stands for. -/
def unpacked (a : Float) : UnpackedFloat := a.toModel.unpack

/-- What a number of the model becomes as a double. -/
def repacked (u : UnpackedFloat) : UnpackedFloat := (Float.Model.pack u).unpack

theorem isDouble_ofFloat (a : Float) : (ofFloat a).IsDouble := by
  have hfraction : (@unpackMantissa .binary64 a.toBits.toBitVec).toNat < 2 ^ 52 :=
    (unpackMantissa _).isLt
  have hfield : (@unpackExponent .binary64 a.toBits.toBitVec).toNat < 2048 :=
    (unpackExponent _).isLt
  rw [ofFloat_eq_fields]
  dsimp only
  split_ifs
  · trivial
  · trivial
  · exact ⟨by omega, Or.inr rfl, le_rfl, by decide⟩
  · exact ⟨by omega, Or.inl (by omega), by rw [minExponent]; omega, by rw [maxExponent]; omega⟩

/-- The mantissa and the exponent of a double. -/
theorem unpacked_bounds {a : Float} {s : Sign} {m : ℕ} {e : ℤ} {h : 0 < m}
    (ha : unpacked a = .finite s m e h) :
    m < 2 ^ 53 ∧ (2 ^ 52 ≤ m ∨ e = -1074) ∧ -1074 ≤ e ∧ e ≤ 971 := by
  have hdouble := isDouble_ofFloat a
  rwa [ofFloat_eq, show a.toModel.unpack = .finite s m e h from ha] at hdouble

theorem unpackSign_packComponents (s : Sign) (x : BitVec 11) (f : BitVec 52) :
    Sign.ofBitVec (unpackSign (packComponents .binary64 s x f)) = s := by
  have hsign : @unpackSign .binary64 (packComponents .binary64 s x f) = s.toBitVec := by
    ext i hi
    simp [unpackSign, packComponents]
    grind
  rw [hsign]
  cases s <;> rfl

/-- What a bit pattern stands for, by its parts. -/
theorem unpack_packComponents (s : Sign) (x : BitVec 11) (f : BitVec 52) :
    Float.Model.UnpackedFloat.unpack .binary64 (packComponents .binary64 s x f) =
      if x = -1#11 then if f = 0#52 then .infinity s else .notANumber
      else if x = 0#11 then
        if h : f = 0#52 then .zero s
        else .finite s f.toNat ((x.toNat : ℤ) - 1075 + 1) 
            (by simpa [BitVec.toNat_pos, BitVec.pos_iff_ne_zero] using h)
      else .finite s (1#1 ++ f).toNat ((x.toNat : ℤ) - 1075)
        (by rw [toNat_leading]; omega) := by
  unfold Float.Model.UnpackedFloat.unpack
  simp only [unpackMantissa_packComponents, unpackExponent_packComponents,
    unpackSign_packComponents]
  rfl

/-- **Numbers of the model that are those of doubles are read back from them.** -/
theorem repacked_eq {u : UnpackedFloat} (h : (ofUnpacked u).IsDouble) : repacked u = u := by
  change Float.Model.UnpackedFloat.unpack .binary64
    (Float.Model.UnpackedFloat.pack .binary64 u) = u
  cases u with
  | notANumber => rfl
  | infinity s => cases s <;> rfl
  | zero s => cases s <;> rfl
  | finite s m e hm =>
    obtain ⟨hlt, hnormal, hlow, hhigh⟩ := h
    rw [minExponent] at hlow hnormal
    rw [maxExponent] at hhigh
    rw [Float.Model.UnpackedFloat.pack, toNat_biased, if_neg (by change ¬ 2 ^ 11 ≤ _; omega)]
    by_cases hsub : m < 2 ^ 52
    · -- without its leading bit the mantissa has the least exponent
      have hlog : m.log2 < 52 := (Nat.log2_lt hm.ne').mpr hsub
      have hf : (BitVec.ofNat 52 m).toNat = m := by
        rw [BitVec.toNat_ofNat, Nat.mod_eq_of_lt hsub]
      have hne : BitVec.ofNat 52 m ≠ 0#52 := fun h0 => by
        rw [h0] at hf
        exact hm.ne hf
      rw [if_neg (by change ¬ _ = 53; omega)]
      refine (unpack_packComponents s _ _).trans ?_
      rw [if_neg (by decide), if_pos rfl, dif_neg hne]
      congr 1
      change (0 : ℤ) - 1075 + 1 = e
      omega
    · have hlog : m.log2 = 52 := (Nat.log2_eq_iff hm.ne').mpr ⟨by omega, by omega⟩
      have hx : (BitVec.ofNat 11 (e + 1075).toNat).toNat = (e + 1075).toNat := by
        rw [BitVec.toNat_ofNat, Nat.mod_eq_of_lt (by omega)]
      have hne : ∀ x : BitVec 11, x.toNat ≠ (e + 1075).toNat →
          BitVec.ofNat 11 (e + 1075).toNat ≠ x := by
        rintro x hx' rfl
        exact hx' hx
      rw [if_pos (by rw [hlog]; rfl)]
      refine (unpack_packComponents s _ _).trans ?_
      rw [if_neg (hne _ (by change 2047 ≠ _; omega)), if_neg (hne _ (by change 0 ≠ _; omega))]
      congr 1
      · rw [toNat_leading, BitVec.toNat_ofNat]
        omega
      · change ((BitVec.ofNat 11 (e + 1075).toNat).toNat : ℤ) - 1075 = e
        omega

/-- A valid bit pattern is read back, the one of no number included. -/
theorem pack_unpack_of_valid {v : BitVec Format.binary64.numBits} (h : Format.binary64.Valid v) :
    Float.Model.UnpackedFloat.pack .binary64 (Float.Model.UnpackedFloat.unpack .binary64 v) =
      v := by
  by_cases hx : (unpackExponent v).toNat = 2047
  · have hones : unpackExponent v = -1#11 := BitVec.toNat_inj.mp hx
    unfold Float.Model.UnpackedFloat.unpack
    dsimp only
    rw [if_pos hones]
    by_cases hm : unpackMantissa v = 0#52
    · rw [if_pos hm]
      exact packComponents_eq hones hm
    · rw [if_neg hm]
      exact (h.eq_packedNaN hones hm).symm
  · exact pack_unpack hx

/-- A double is what it stands for. -/
theorem eq_of_unpacked_eq {a b : Float} (h : unpacked a = unpacked b) : a = b := by
  obtain ⟨⟨v, hv⟩⟩ := a
  obtain ⟨⟨w, hw⟩⟩ := b
  have hbits := congrArg (Float.Model.UnpackedFloat.pack .binary64) h
  rw [show Float.Model.UnpackedFloat.pack .binary64 (unpacked ⟨⟨v, hv⟩⟩) = v.toBitVec from
      pack_unpack_of_valid hv,
    show Float.Model.UnpackedFloat.pack .binary64 (unpacked ⟨⟨w, hw⟩⟩) = w.toBitVec from
      pack_unpack_of_valid hw] at hbits
  obtain rfl := UInt64.toBitVec_inj.mp hbits
  rfl

/-! ### Rounding in the model -/

section Rounding

variable {m : ℕ} {e : ℤ}

/-- The exponent that a mantissa is rounded at. -/
def roundingExponent (m : ℕ) (e : ℤ) : ℤ := max ((m.log2 : ℤ) + e - 52) (-1074)

theorem targetExponent_eq (m : ℕ) (e : ℤ) :
    Format.binary64.targetExponent (totalExponent m e) = roundingExponent m e := by
  change max ((m.log2 : ℤ) + 1 + e - 53) (-1074) = max ((m.log2 : ℤ) + e - 52) (-1074)
  omega

/-- The mantissa at that exponent, rounded. -/
def roundedAt (m : ℕ) (e : ℤ) (a : Accuracy) : ℕ :=
  (shiftToTargetExponent .binary64 m e a).1.roundedMantissa

theorem roundedAt_eq (m : ℕ) (e : ℤ) (a : Accuracy) : roundedAt m e a =
    (ExtendedMantissa.ofMantissaAndAccuracy m a >>>
      (roundingExponent m e - e).toNat).roundedMantissa := by
  rw [← targetExponent_eq]
  rfl

theorem le_roundedMantissa (em : ExtendedMantissa) : em.mantissa ≤ em.roundedMantissa := by
  obtain ⟨m, r, s⟩ := em
  cases r <;> cases s <;>
    simp only [ExtendedMantissa.roundedMantissa, ExtendedMantissa.accuracy,
      Accuracy.roundToNearestEven] <;> omega

theorem roundedMantissa_of_roundBit {em : ExtendedMantissa} (h : em.roundBit = false) :
    em.roundedMantissa = em.mantissa := by
  obtain ⟨m, r, s⟩ := em
  obtain rfl : r = false := h
  cases s <;> rfl

theorem mantissa_shiftRight_succ (em : ExtendedMantissa) (k : ℕ) :
    (em >>> (k + 1)).mantissa = em.mantissa / 2 ^ k / 2 := by
  rw [mantissa_shiftRight, Nat.pow_succ, Nat.div_div_eq_div_mul]

/-- The last bit that is shifted out is the round bit. -/
theorem roundBit_shiftRight_succ (em : ExtendedMantissa) (k : ℕ) :
    (em >>> (k + 1)).roundBit = (em.mantissa / 2 ^ k % 2 != 0) := by
  rw [← mantissa_shiftRight]
  rfl

/-- What is rounded up is half a place or more. -/
theorem two_mul_roundedMantissa_le (em : ExtendedMantissa) (k : ℕ) :
    2 * ((em >>> (k + 1)).roundedMantissa * 2 ^ (k + 1)) ≤ 2 * em.mantissa + 2 ^ (k + 1) := by
  have hpow : 2 ^ (k + 1) = 2 * 2 ^ k := Nat.pow_succ'
  have hmantissa := mantissa_shiftRight_succ em k
  have hbit := roundBit_shiftRight_succ em k
  have hle : em.mantissa / 2 ^ k * 2 ^ k ≤ em.mantissa := Nat.div_mul_le_self _ _
  by_cases hup : em.mantissa / 2 ^ k % 2 = 0
  · have hkeep : (em >>> (k + 1)).roundedMantissa = em.mantissa / 2 ^ k / 2 := by
      rw [roundedMantissa_of_roundBit (by rw [hbit, hup]; rfl), hmantissa]
    have hhalf : em.mantissa / 2 ^ k / 2 * 2 = em.mantissa / 2 ^ k := by omega
    calc 2 * ((em >>> (k + 1)).roundedMantissa * 2 ^ (k + 1))
        = 2 * (em.mantissa / 2 ^ k / 2 * 2 * 2 ^ k) := by rw [hkeep, hpow]; ring
      _ ≤ 2 * em.mantissa + 2 ^ (k + 1) := by rw [hhalf]; omega
  · have hround := roundedMantissa_le (em >>> (k + 1))
    rw [hmantissa] at hround
    have hhalf : em.mantissa / 2 ^ k / 2 * 2 + 1 = em.mantissa / 2 ^ k := by omega
    have hplaces : (em >>> (k + 1)).roundedMantissa * 2 ≤ em.mantissa / 2 ^ k + 1 := by omega
    calc 2 * ((em >>> (k + 1)).roundedMantissa * 2 ^ (k + 1))
        = 2 * ((em >>> (k + 1)).roundedMantissa * 2 * 2 ^ k) := by rw [hpow]; ring
      _ ≤ 2 * ((em.mantissa / 2 ^ k + 1) * 2 ^ k) := by gcongr
      _ = 2 * (em.mantissa / 2 ^ k * 2 ^ k) + 2 * 2 ^ k := by ring
      _ ≤ 2 * em.mantissa + 2 ^ (k + 1) := by rw [hpow]; omega

/-- What is rounded down to an odd mantissa is less than half a place. -/
theorem two_mul_lt_of_odd (em : ExtendedMantissa) (k : ℕ)
    (h : (em >>> (k + 1)).roundedMantissa % 2 = 1) :
    2 * em.mantissa < (2 * (em >>> (k + 1)).roundedMantissa + 1) * 2 ^ (k + 1) := by
  have hmantissa := mantissa_shiftRight_succ em k
  have hbit := roundBit_shiftRight_succ em k
  have hlt : em.mantissa < 2 ^ k * (em.mantissa / 2 ^ k + 1) :=
    Nat.lt_mul_div_succ _ (Nat.two_pow_pos k)
  have hup : em.mantissa / 2 ^ k + 1 ≤ 2 * (em >>> (k + 1)).roundedMantissa + 1 := by
    have hkeep := le_roundedMantissa (em >>> (k + 1))
    generalize em >>> (k + 1) = shifted at *
    obtain ⟨m, r, s⟩ := shifted
    dsimp only at hmantissa hbit
    -- a tie goes to an even mantissa
    cases r <;> cases s <;>
      simp only [ExtendedMantissa.roundedMantissa, ExtendedMantissa.accuracy,
        Accuracy.roundToNearestEven] at h hkeep ⊢ <;>
      simp at hbit <;> omega
  calc 2 * em.mantissa < 2 * (2 ^ k * (em.mantissa / 2 ^ k + 1)) := by omega
    _ ≤ 2 * (2 ^ k * (2 * (em >>> (k + 1)).roundedMantissa + 1)) := by gcongr
    _ = (2 * (em >>> (k + 1)).roundedMantissa + 1) * 2 ^ (k + 1) := by
      rw [Nat.pow_succ]
      ring

theorem div_le_roundedAt (a : Accuracy) :
    m / 2 ^ (roundingExponent m e - e).toNat ≤ roundedAt m e a := by
  rw [roundedAt_eq]
  refine le_of_eq_of_le ?_ (le_roundedMantissa _)
  rw [mantissa_shiftRight, mantissa_ofMantissaAndAccuracy]

theorem roundedAt_le_succ (a : Accuracy) :
    roundedAt m e a ≤ m / 2 ^ (roundingExponent m e - e).toNat + 1 := by
  rw [roundedAt_eq]
  refine (roundedMantissa_le _).trans_eq ?_
  rw [mantissa_shiftRight, mantissa_ofMantissaAndAccuracy]

theorem roundedAt_le_pow (a : Accuracy) : roundedAt m e a ≤ 2 ^ 53 := by
  refine (roundedAt_le_succ a).trans (Nat.succ_le_of_lt ?_)
  rw [Nat.div_lt_iff_lt_mul (Nat.two_pow_pos _), ← Nat.pow_add]
  refine Nat.lt_log2_self.trans_le (Nat.pow_le_pow_right (by decide) ?_)
  rw [roundingExponent]
  omega

/-- A rounded mantissa has its leading bit unless the exponent is least. -/
theorem roundedAt_normal (hm : 0 < m ∨ roundingExponent m e = -1074)
    (he : e ≤ roundingExponent m e) (a : Accuracy) :
    2 ^ 52 ≤ roundedAt m e a ∨ roundingExponent m e = -1074 := by
  rw [or_iff_not_imp_right]
  intro hleast
  have hm := hm.resolve_right hleast
  refine le_trans ?_ (div_le_roundedAt a)
  rw [Nat.le_div_iff_mul_le (Nat.two_pow_pos _), ← Nat.pow_add]
  refine le_trans (Nat.pow_le_pow_right (by decide) ?_) (Nat.log2_self_le hm.ne')
  rw [roundingExponent] at hleast he ⊢
  omega

theorem shift_of_lt (hm : m < 2 ^ 53) (he : -1074 ≤ e) :
    shiftToTargetExponent .binary64 m e .exact = (⟨m, false, false⟩, e) := by
  have hlog : m.log2 ≤ 52 := by
    by_cases h0 : m = 0
    · simp [h0]
    · exact Nat.lt_succ_iff.mp ((Nat.log2_lt h0).mpr hm)
  have hk : (roundingExponent m e - e).toNat = 0 := by
    rw [roundingExponent]
    omega
  rw [← targetExponent_eq] at hk
  rw [shiftToTargetExponent, shiftToExponent, hk]
  simp only [Nat.cast_zero, Int.add_zero]
  rfl

theorem shift_of_carry (he : -1074 ≤ e) :
    shiftToTargetExponent .binary64 (2 ^ 53) e .exact = (⟨2 ^ 52, false, false⟩, e + 1) := by
  have hk : (roundingExponent (2 ^ 53) e - e).toNat = 1 := by
    rw [roundingExponent, Nat.log2_two_pow]
    omega
  rw [← targetExponent_eq] at hk
  rw [shiftToTargetExponent, shiftToExponent, hk]
  rfl

/-- Rounding by the mantissa at the exponent, which may have one bit too many. -/
theorem roundWithAccuracy_eq (he : e ≤ roundingExponent m e) (s : Sign) (a : Accuracy) :
    roundWithAccuracy .binary64 s m e a =
      if h : roundedAt m e a = 0 then .zero s
      else if roundedAt m e a < 2 ^ 53 then
        .finite s (roundedAt m e a) (roundingExponent m e) (Nat.pos_of_ne_zero h)
      else .finite s (2 ^ 52) (roundingExponent m e + 1) (by decide) := by
  have hplace : (shiftToTargetExponent .binary64 m e a).2 = roundingExponent m e := by
    change e + (Format.binary64.targetExponent (totalExponent m e) - e).toNat = _
    rw [targetExponent_eq]
    omega
  have hleast : -1074 ≤ roundingExponent m e := le_max_right _ _
  have hcarry := roundedAt_le_pow (m := m) (e := e) a
  rw [roundWithAccuracy]
  dsimp only
  rw [hplace, show (shiftToTargetExponent .binary64 m e a).1.roundedMantissa = roundedAt m e a
    from rfl]
  by_cases hlt : roundedAt m e a < 2 ^ 53
  · simp only [shift_of_lt hlt hleast, if_pos hlt]
  · obtain hpow : roundedAt m e a = 2 ^ 53 := by omega
    simp only [hpow, shift_of_carry hleast]
    rfl

/-! ### Values -/

/-- The value of a finite number of the model, zero for the others. -/
def value : UnpackedFloat → ℚ
  | .finite s m e _ => s.apply m * 2 ^ e
  | _ => 0

/-- The least positive double. -/
def grain : ℚ := 2⁻¹ ^ 1074

theorem grain_pos : 0 < grain := pow_pos (by norm_num) _

/-- A value is rounded to one of the same sign that differs from it by two places at most. -/
structure Rounded (x y : ℚ) : Prop where
  nonneg : 0 ≤ x → 0 ≤ y
  nonpos : x ≤ 0 → y ≤ 0
  abs_sub_le : |y - x| ≤ |x| * 2⁻¹ ^ 51 + 2 * grain

/-- A number of the model that is a finite double near to a value. -/
def RoundsTo (x : ℚ) (u : UnpackedFloat) : Prop :=
  u.isFinite ∧ (ofUnpacked u).IsDouble ∧ Rounded x (value u)

theorem Rounded.refl (x : ℚ) : Rounded x x := by
  refine ⟨id, id, ?_⟩
  have hgrain := grain_pos
  rw [sub_self, abs_zero]
  positivity

theorem Rounded.neg {x y : ℚ} (h : Rounded x y) : Rounded (-x) (-y) := by
  obtain ⟨hpos, hneg, habs⟩ := h
  refine ⟨fun hx => ?_, fun hx => ?_, by rwa [← neg_sub', abs_neg, abs_neg]⟩
  · linarith [hneg (by linarith)]
  · linarith [hpos (by linarith)]

theorem two_zpow_pos (e : ℤ) : (0 : ℚ) < 2 ^ e := zpow_pos (by norm_num) e

/-- The place at which a value is rounded is small. -/
theorem two_zpow_roundingExponent_le (hm : 0 < m ∨ roundingExponent m e = -1074) :
    (2 : ℚ) ^ roundingExponent m e ≤ m * 2 ^ e * 2⁻¹ ^ 52 + grain := by
  have hleast : (2 : ℚ) ^ (-1074 : ℤ) = grain := by
    rw [zpow_neg, grain, inv_pow]
    rfl
  by_cases h : roundingExponent m e = -1074
  · rw [h, hleast]
    exact le_add_of_nonneg_left (by positivity)
  · have hm := hm.resolve_right h
    have hplace : roundingExponent m e = (m.log2 : ℤ) + e - 52 := by
      rw [roundingExponent] at h ⊢
      omega
    have hlog : ((2 : ℚ) ^ m.log2) ≤ m := by exact_mod_cast Nat.log2_self_le hm.ne'
    have hnonneg := (two_zpow_pos e).le
    calc (2 : ℚ) ^ roundingExponent m e = 2 ^ m.log2 * 2 ^ e * 2⁻¹ ^ 52 := by
          rw [hplace, zpow_sub₀ (by norm_num), zpow_add₀ (by norm_num), zpow_natCast,
            div_eq_mul_inv, inv_pow]
          rfl
      _ ≤ m * 2 ^ e * 2⁻¹ ^ 52 := by gcongr
      _ ≤ m * 2 ^ e * 2⁻¹ ^ 52 + grain := le_add_of_nonneg_right grain_pos.le

/-- The place that is rounded to, by the places that are left out. -/
theorem two_zpow_roundingExponent (he : e ≤ roundingExponent m e) :
    (2 : ℚ) ^ roundingExponent m e = 2 ^ (roundingExponent m e - e).toNat * 2 ^ e := by
  rw [← zpow_natCast, ← zpow_add₀ (by norm_num)]
  congr 1
  omega

theorem value_roundedAt_le (he : e ≤ roundingExponent m e) (a : Accuracy) :
    (roundedAt m e a : ℚ) * 2 ^ roundingExponent m e ≤ m * 2 ^ e + 2 ^ roundingExponent m e := by
  have hplace := two_zpow_roundingExponent he
  set k := (roundingExponent m e - e).toNat with hk
  have hfloor : ((m / 2 ^ k : ℕ) : ℚ) * 2 ^ k ≤ m := by
    exact_mod_cast Nat.div_mul_le_self m (2 ^ k)
  have hle : (roundedAt m e a : ℚ) ≤ (m / 2 ^ k : ℕ) + 1 := by
    exact_mod_cast roundedAt_le_succ a
  have hnonneg := (two_zpow_pos e).le
  calc (roundedAt m e a : ℚ) * 2 ^ roundingExponent m e
      ≤ ((m / 2 ^ k : ℕ) + 1) * 2 ^ roundingExponent m e :=
        mul_le_mul_of_nonneg_right hle (two_zpow_pos _).le
    _ = ((m / 2 ^ k : ℕ) : ℚ) * 2 ^ k * 2 ^ e + 2 ^ roundingExponent m e := by
        rw [hplace]
        ring
    _ ≤ m * 2 ^ e + 2 ^ roundingExponent m e := by gcongr

theorem le_value_roundedAt (he : e ≤ roundingExponent m e) (a : Accuracy) :
    (m : ℚ) * 2 ^ e ≤ roundedAt m e a * 2 ^ roundingExponent m e + 2 ^ roundingExponent m e := by
  have hplace := two_zpow_roundingExponent he
  set k := (roundingExponent m e - e).toNat with hk
  have hnat : m ≤ (roundedAt m e a + 1) * 2 ^ k :=
    calc m ≤ (m / 2 ^ k + 1) * 2 ^ k := by
          rw [Nat.mul_comm]
          exact (Nat.lt_mul_div_succ m (Nat.two_pow_pos k)).le
      _ ≤ (roundedAt m e a + 1) * 2 ^ k := by
        gcongr
        exact div_le_roundedAt a
  have hcast : (m : ℚ) ≤ (roundedAt m e a + 1) * 2 ^ k := by exact_mod_cast hnat
  calc (m : ℚ) * 2 ^ e ≤ (roundedAt m e a + 1) * 2 ^ k * 2 ^ e :=
        mul_le_mul_of_nonneg_right hcast (two_zpow_pos e).le
    _ = roundedAt m e a * 2 ^ roundingExponent m e + 2 ^ roundingExponent m e := by
        rw [hplace]
        ring

/-- An exact value is rounded up by half a place at most. -/
theorem value_roundedAt_le_half (he : e ≤ roundingExponent m e) :
    2 * ((roundedAt m e .exact : ℚ) * 2 ^ roundingExponent m e) ≤
      2 * (m * 2 ^ e) + 2 ^ roundingExponent m e := by
  have hplace := two_zpow_roundingExponent he
  set k := (roundingExponent m e - e).toNat with hk
  have hnat : 2 * (roundedAt m e .exact * 2 ^ k) ≤ 2 * m + 2 ^ k := by
    rw [roundedAt_eq, ← hk]
    cases k with
    | zero =>
      change 2 * (m * 1) ≤ _
      omega
    | succ k => exact two_mul_roundedMantissa_le _ k
  have hcast : 2 * ((roundedAt m e .exact : ℚ) * 2 ^ k) ≤ 2 * m + 2 ^ k := by exact_mod_cast hnat
  have hnonneg := (two_zpow_pos e).le
  calc 2 * ((roundedAt m e .exact : ℚ) * 2 ^ roundingExponent m e)
      = 2 * ((roundedAt m e .exact : ℚ) * 2 ^ k) * 2 ^ e := by rw [hplace]; ring
    _ ≤ (2 * m + 2 ^ k) * 2 ^ e := by gcongr
    _ = 2 * (m * 2 ^ e) + 2 ^ roundingExponent m e := by rw [hplace]; ring

theorem rounded_apply (s : Sign) {x y : ℚ} (hx : 0 < x) (hy : 0 ≤ y)
    (hle : |y - x| ≤ x * 2⁻¹ ^ 51 + 2 * grain) : Rounded (s.apply 1 * x) (s.apply 1 * y) := by
  have hrounded : Rounded x y :=
    ⟨fun _ => hy, fun hx' => absurd hx' (not_le.mpr hx), by rwa [abs_of_pos hx]⟩
  cases s with
  | positive => simpa [Sign.apply] using hrounded
  | negative => simpa [Sign.apply] using hrounded.neg

theorem apply_mul (s : Sign) (n : ℕ) (x : ℚ) : (s.apply n : ℚ) * x = s.apply 1 * (n * x) := by
  cases s <;> simp [Sign.apply]

/-- **Rounding in the model.**  A mantissa and what is left of a value `x` behind it are rounded to
a finite double near to `x`, unless the mantissa grows to the top of the range. -/
theorem roundsTo_roundWithAccuracy (hm : 0 < m ∨ roundingExponent m e = -1074)
    (he : e ≤ roundingExponent m e) {x : ℚ} (hpos : 0 < x) (hx : m * 2 ^ e ≤ x)
    (hx' : x ≤ m * 2 ^ e + 2 ^ e) {a : Accuracy}
    (hfits : (roundedAt m e a : ℚ) * 2 ^ roundingExponent m e < 2 ^ (1024 : ℤ)) (s : Sign) :
    RoundsTo (s.apply 1 * x) (roundWithAccuracy .binary64 s m e a) := by
  have hnormal := roundedAt_normal hm he a
  have hcarry := roundedAt_le_pow (m := m) (e := e) a
  have hleast : -1074 ≤ roundingExponent m e := le_max_right _ _
  -- the exponent is in range, as the mantissa has its leading bit there
  have htop : ∀ k : ℕ, 2 ^ k ≤ roundedAt m e a → k + roundingExponent m e < 1024 := by
    intro k hk
    have hk' : (2 : ℚ) ^ (k : ℤ) ≤ roundedAt m e a := by
      rw [zpow_natCast]
      exact_mod_cast hk
    have hprod := (mul_le_mul_of_nonneg_right hk' (two_zpow_pos (roundingExponent m e)).le).trans_lt
      hfits
    rw [← zpow_add₀ (by norm_num)] at hprod
    exact (zpow_lt_zpow_iff_right₀ (by norm_num)).mp hprod
  have hnear : Rounded (s.apply 1 * x)
      (s.apply 1 * (roundedAt m e a * 2 ^ roundingExponent m e)) := by
    refine rounded_apply s hpos (mul_nonneg (Nat.cast_nonneg _) (two_zpow_pos _).le) ?_
    have hplace : (2 : ℚ) ^ e ≤ 2 ^ roundingExponent m e := zpow_le_zpow_right₀ (by norm_num) he
    have hsmall : (2 : ℚ) ^ roundingExponent m e ≤ x * 2⁻¹ ^ 52 + grain :=
      (two_zpow_roundingExponent_le hm).trans (by gcongr)
    have hup := value_roundedAt_le he a
    have hdown := le_value_roundedAt he a
    have hpow : (2⁻¹ : ℚ) ^ 51 = 2 * 2⁻¹ ^ 52 := by norm_num
    rw [abs_le, hpow]
    generalize (2⁻¹ : ℚ) ^ 52 = ulp at hsmall
    generalize (2 : ℚ) ^ roundingExponent m e = place at *
    constructor <;> nlinarith
  rw [roundWithAccuracy_eq he]
  split_ifs with hzero hlt
  · rw [hzero, Nat.cast_zero, zero_mul, mul_zero] at hnear
    exact ⟨rfl, ⟨by decide, Or.inr rfl, le_rfl, by decide⟩, hnear⟩
  · refine ⟨rfl, ⟨hlt, hnormal, hleast, ?_⟩, by rwa [value, apply_mul]⟩
    rcases hnormal with hbig | hsmall
    · have := htop 52 hbig
      rw [maxExponent]
      omega
    · rw [hsmall]
      decide
  · have hpow : roundedAt m e a = 2 ^ 53 := by omega
    have hlast := htop 53 hpow.ge
    have hvalue : (2 : ℚ) ^ 53 * 2 ^ roundingExponent m e =
        (2 ^ 52 : ℕ) * 2 ^ (roundingExponent m e + 1) := by
      rw [zpow_add_one₀ (by norm_num)]
      push_cast
      ring
    rw [hpow, Nat.cast_pow, Nat.cast_ofNat, hvalue] at hnear
    refine ⟨rfl, ⟨by decide, Or.inl le_rfl, ?_, ?_⟩, by rwa [value, apply_mul]⟩
    · rw [minExponent]
      omega
    · rw [maxExponent]
      omega

/-- Half a place above the largest double. -/
def brink : ℚ := 2 ^ (1024 : ℤ) - 2 ^ (970 : ℤ)

theorem roundingExponent_lt (he : e ≤ roundingExponent m e) {k : ℤ} (hk : -1022 < k)
    (h : (m : ℚ) * 2 ^ e < 2 ^ k) : roundingExponent m e < k - 52 := by
  by_cases hm : m = 0
  · rw [roundingExponent, hm, Nat.log2_zero] at he ⊢
    omega
  · have hlog : ((2 : ℚ) ^ (m.log2 : ℤ)) ≤ m := by
      rw [zpow_natCast]
      exact_mod_cast Nat.log2_self_le hm
    have hlow := (mul_le_mul_of_nonneg_right hlog (two_zpow_pos e).le).trans_lt h
    rw [← zpow_add₀ (by norm_num)] at hlow
    have hlt := (zpow_lt_zpow_iff_right₀ (by norm_num)).mp hlow
    rw [roundingExponent]
    omega

/-- A value well below the top of the range stays in range. -/
theorem fits_of_lt (he : e ≤ roundingExponent m e) (h : (m : ℚ) * 2 ^ e < 2 ^ (1023 : ℤ))
    (a : Accuracy) : (roundedAt m e a : ℚ) * 2 ^ roundingExponent m e < 2 ^ (1024 : ℤ) := by
  have hplace := roundingExponent_lt he (by decide) h
  have hle : (2 : ℚ) ^ roundingExponent m e ≤ 2 ^ (1023 : ℤ) :=
    zpow_le_zpow_right₀ (by norm_num) (by omega)
  calc (roundedAt m e a : ℚ) * 2 ^ roundingExponent m e
      ≤ m * 2 ^ e + 2 ^ roundingExponent m e := value_roundedAt_le he a
    _ < 2 ^ (1023 : ℤ) + 2 ^ (1023 : ℤ) := add_lt_add_of_lt_of_le h hle
    _ = 2 ^ (1024 : ℤ) := by rw [← two_mul, ← zpow_one_add₀ (by norm_num)]; rfl

/-- An exact value stays in range below the brink. -/
theorem fits_of_lt_brink (he : e ≤ roundingExponent m e) (h : (m : ℚ) * 2 ^ e < brink) :
    (roundedAt m e .exact : ℚ) * 2 ^ roundingExponent m e < 2 ^ (1024 : ℤ) := by
  have htop : (m : ℚ) * 2 ^ e < 2 ^ (1024 : ℤ) := h.trans (sub_lt_self _ (two_zpow_pos _))
  have hplace := roundingExponent_lt he (by decide) htop
  have hle : (2 : ℚ) ^ roundingExponent m e ≤ 2 ^ (971 : ℤ) :=
    zpow_le_zpow_right₀ (by norm_num) (by omega)
  have hhalf : (2 : ℚ) ^ (971 : ℤ) = 2 * 2 ^ (970 : ℤ) := by
    rw [← zpow_one_add₀ (by norm_num)]
    rfl
  have hround := value_roundedAt_le_half he
  rw [brink] at h
  rw [hhalf] at hle
  generalize (2 : ℚ) ^ (1024 : ℤ) = top at h ⊢
  generalize (2 : ℚ) ^ (970 : ℤ) = half at h hle
  linarith

/-- A finite number of the model beyond the range becomes an infinity. -/
theorem repacked_of_lt {s : Sign} {h : 0 < m} (he : 971 < e) :
    repacked (.finite s m e h) = .infinity s := by
  change Float.Model.UnpackedFloat.unpack .binary64
    (Float.Model.UnpackedFloat.pack .binary64 _) = _
  rw [Float.Model.UnpackedFloat.pack, toNat_biased, if_pos (by change 2 ^ 11 ≤ _; omega)]
  cases s <;> rfl

/-- An exact value is rounded down to an odd mantissa by less than half a place. -/
theorem value_lt_of_odd (he : e ≤ roundingExponent m e) (h : roundedAt m e .exact % 2 = 1) :
    2 * ((m : ℚ) * 2 ^ e) < (2 * roundedAt m e .exact + 1) * 2 ^ roundingExponent m e := by
  have hplace := two_zpow_roundingExponent he
  set k := (roundingExponent m e - e).toNat with hk
  have hnat : 2 * m < (2 * roundedAt m e .exact + 1) * 2 ^ k := by
    revert h
    rw [roundedAt_eq, ← hk]
    cases k with
    | zero =>
      intro _
      change 2 * m < (2 * m + 1) * 1
      omega
    | succ k => exact two_mul_lt_of_odd _ k
  have hcast : 2 * (m : ℚ) < (2 * roundedAt m e .exact + 1) * 2 ^ k := by exact_mod_cast hnat
  calc 2 * ((m : ℚ) * 2 ^ e) = 2 * m * 2 ^ e := by ring
    _ < (2 * roundedAt m e .exact + 1) * 2 ^ k * 2 ^ e :=
      mul_lt_mul_of_pos_right hcast (two_zpow_pos e)
    _ = (2 * roundedAt m e .exact + 1) * 2 ^ roundingExponent m e := by rw [hplace]; ring

/-- The brink lies half a place above the largest mantissa at the largest exponent. -/
theorem brink_eq : 2 * brink = (2 ^ 54 - 1) * 2 ^ (971 : ℤ) := by
  have htop : (2 : ℚ) ^ (1024 : ℤ) = 2 ^ 53 * 2 ^ (971 : ℤ) := by
    rw [← zpow_natCast, ← zpow_add₀ (by norm_num)]
    rfl
  have hhalf : (2 : ℚ) ^ (971 : ℤ) = 2 * 2 ^ (970 : ℤ) := by
    rw [← zpow_one_add₀ (by norm_num)]
    rfl
  rw [brink, htop, hhalf]
  ring

/-- What is rounded to a mantissa at the largest exponent lies below the brink. -/
theorem lt_brink_of_roundedAt_lt (he : e ≤ roundingExponent m e)
    (hplace : roundingExponent m e = 971) (h : roundedAt m e .exact < 2 ^ 53) :
    (m : ℚ) * 2 ^ e < brink := by
  have hbrink := brink_eq
  have hlast := two_zpow_pos 971
  have hlow := le_value_roundedAt he .exact
  have hodd := value_lt_of_odd he
  rw [hplace] at hlow hodd
  generalize (2 : ℚ) ^ (971 : ℤ) = place at *
  by_cases hmost : roundedAt m e .exact = 2 ^ 53 - 1
  · have hlt := hodd (by rw [hmost]; decide)
    rw [hmost] at hlt
    push_cast at hlt
    linarith
  · have hless : (roundedAt m e .exact : ℚ) + 2 ≤ 2 ^ 53 := by exact_mod_cast (by omega)
    have hscaled := mul_le_mul_of_nonneg_right hless hlast.le
    linarith

/-- **An exact value at the brink or beyond it overflows.** -/
theorem not_isFinite_of_brink_le (he : e ≤ roundingExponent m e) (h : brink ≤ (m : ℚ) * 2 ^ e)
    (s : Sign) : ¬ (repacked (roundWithAccuracy .binary64 s m e .exact)).isFinite := by
  have hlarge : (2 : ℚ) ^ (1023 : ℤ) ≤ m * 2 ^ e := by
    refine le_trans ?_ h
    rw [brink, le_sub_iff_add_le, show (1024 : ℤ) = 1023 + 1 from rfl, zpow_add_one₀ (by norm_num),
      mul_two]
    exact add_le_add_right (zpow_le_zpow_right₀ (by norm_num) (by decide)) _
  have hbits : (1023 : ℤ) < (m.log2 + 1 : ℕ) + e := by
    have hlt : (m : ℚ) < 2 ^ ((m.log2 + 1 : ℕ) : ℤ) := by
      rw [zpow_natCast]
      exact_mod_cast Nat.lt_log2_self
    have hprod := hlarge.trans_lt (mul_lt_mul_of_pos_right hlt (two_zpow_pos e))
    rw [← zpow_add₀ (by norm_num)] at hprod
    exact (zpow_lt_zpow_iff_right₀ (by norm_num)).mp hprod
  have hplace : 971 ≤ roundingExponent m e := by
    rw [roundingExponent]
    omega
  have hm : 0 < m := Nat.pos_of_ne_zero fun h0 => by
    rw [h0, Nat.cast_zero, zero_mul] at hlarge
    exact absurd hlarge (not_le.mpr (two_zpow_pos _))
  have hnormal := (roundedAt_normal (Or.inl hm) he .exact).resolve_right (by omega)
  rw [roundWithAccuracy_eq he, dif_neg (by omega)]
  split_ifs with hlt
  · rcases hplace.lt_or_eq with hbeyond | hlast
    · rw [repacked_of_lt hbeyond]
      exact Bool.false_ne_true
    · exact absurd (lt_brink_of_roundedAt_lt he hlast.symm hlt) (not_lt.mpr h)
  · rw [repacked_of_lt (by omega)]
    exact Bool.false_ne_true

theorem log2_shiftLeft (hm : 0 < m) (k : ℕ) : (m <<< k).log2 = m.log2 + k := by
  induction k with
  | zero => rfl
  | succ k ih =>
    have hpos : m <<< k ≠ 0 := by
      rw [Nat.shiftLeft_eq]
      positivity
    rw [Nat.shiftLeft_succ, Nat.log2_two_mul hpos, ih, Nat.add_assoc]

theorem roundingExponent_shift (hm : 0 < m) (k : ℕ) :
    roundingExponent (m <<< k) (e - k) = roundingExponent m e := by
  rw [roundingExponent, roundingExponent, log2_shiftLeft hm]
  omega

theorem value_shift (m k : ℕ) (e : ℤ) :
    ((m <<< k : ℕ) : ℚ) * 2 ^ (e - k) = m * 2 ^ e := by
  rw [Nat.shiftLeft_eq, Nat.cast_mul, Nat.cast_pow, Nat.cast_ofNat, ← zpow_natCast, mul_assoc,
    ← zpow_add₀ (by norm_num)]
  congr 2
  omega

/-- A double near to a value in range, and none beyond it. -/
structure ExactRounding (x : ℚ) (u : UnpackedFloat) : Prop where
  near : |x| < brink → RoundsTo x u
  overflows : brink ≤ |x| → ¬ (repacked u).isFinite

theorem abs_apply_mul (s : Sign) {x : ℚ} (hx : 0 ≤ x) : |(s.apply 1 : ℚ) * x| = x := by
  cases s <;> simp [Sign.apply, abs_of_nonneg hx]

theorem brink_pos : 0 < brink := by
  have hbrink := brink_eq
  have hplace := two_zpow_pos 971
  generalize (2 : ℚ) ^ (971 : ℤ) = place at *
  linarith

theorem rounding_zero (s : Sign) : ExactRounding 0 (.zero s) :=
  ⟨fun _ => ⟨rfl, ⟨by decide, Or.inr rfl, le_rfl, by decide⟩, Rounded.refl 0⟩,
    fun h => absurd h (by rw [abs_zero]; exact not_le.mpr brink_pos)⟩

/-- **Exact rounding.** -/
theorem rounding_roundWithAccuracy (hm : 0 < m) (he : e ≤ roundingExponent m e) (s : Sign) :
    ExactRounding (s.apply 1 * (m * 2 ^ e)) (roundWithAccuracy .binary64 s m e .exact) := by
  have hpos : (0 : ℚ) < m * 2 ^ e := mul_pos (Nat.cast_pos.mpr hm) (two_zpow_pos e)
  constructor <;> rw [abs_apply_mul s hpos.le] <;> intro h
  · exact roundsTo_roundWithAccuracy (Or.inl hm) he hpos le_rfl
      (le_add_of_nonneg_right (two_zpow_pos _).le) (fits_of_lt_brink he h) s
  · exact not_isFinite_of_brink_le he h s

theorem rounding_round (hm : 0 < m) (s : Sign) :
    ExactRounding (s.apply 1 * (m * 2 ^ e)) (UnpackedFloat.round .binary64 s m e) := by
  set k := (e - roundingExponent m e).toNat with hk
  have he : e - k ≤ roundingExponent (m <<< k) (e - k) := by
    rw [roundingExponent_shift hm k]
    omega
  have hround : UnpackedFloat.round .binary64 s m e =
      roundWithAccuracy .binary64 s (m <<< k) (e - k) .exact := by
    rw [Float.Model.UnpackedFloat.round, targetExponent_eq]
    rfl
  have hm' : 0 < m <<< k := by
    rw [Nat.shiftLeft_eq]
    positivity
  rw [hround, ← value_shift m k e]
  exact rounding_roundWithAccuracy hm' he s

/-- **A signed mantissa is rounded to a double near to its value.** -/
theorem rounding_normalize (n : ℤ) (e : ℤ) (s : Sign) :
    ExactRounding (n * 2 ^ e) (UnpackedFloat.normalize .binary64 n e s) := by
  have habs : n ≠ 0 → 0 < n.natAbs := Int.natAbs_pos.mpr
  rw [Float.Model.UnpackedFloat.normalize]
  rcases lt_trichotomy n 0 with hn | rfl | hn
  · rw [Int.compare_eq_lt.mpr hn]
    have hround := rounding_round (e := e) (habs hn.ne) .negative
    have hneg : (-n).toNat = n.natAbs := by omega
    have hcast : (n : ℚ) = -(n.natAbs : ℚ) := by
      rw [← Int.cast_natCast, ← Int.cast_neg]
      congr 1
      omega
    rw [hcast, hneg]
    simpa [Sign.apply] using hround
  · rw [Int.compare_eq_eq.mpr rfl, Int.cast_zero, zero_mul]
    exact rounding_zero s
  · rw [Int.compare_eq_gt.mpr hn]
    have hround := rounding_round (e := e) (habs hn.ne') .positive
    have hsame : n.toNat = n.natAbs := by omega
    have hcast : (n : ℚ) = (n.natAbs : ℚ) := by
      rw [← Int.cast_natCast]
      congr 1
      omega
    rw [hcast, hsame]
    simpa [Sign.apply] using hround

end Rounding

end Scrawl.Decimal
