import Scrawl.Proofs.Decimal.Zeros
import Scrawl.Random.Twister
import Scrawl.Stroke.Pen

/-!
# Scrawl.Proofs.Stroke.Magnitudes — how large the numbers of a stroke get

Some numbers on the way to a stroke are made of random ones, and the stroke stops where such a
number is out of range.  For the random numbers of the generator none of them is, unless a number
that does not depend on them is out of range itself.

* `isShare_draw`: the numbers of the generator.
* `isFinite_swing`: what a displacement is a multiple of.
* `isFinite_arm`, `isFinite_farArm`: the control points of a straight segment.
-/

namespace Scrawl.Decimal

open Float.Model (UnpackedFloat)

/-! ### Coarse bounds -/

section Bounds

variable {x y bound : ℚ}

theorem thousand_le_brink : 1000 ≤ brink := by
  have hbrink := brink_eq
  have hplace : (1 : ℚ) ≤ 2 ^ (971 : ℤ) := one_le_zpow₀ (by norm_num) (by decide)
  generalize (2 : ℚ) ^ (971 : ℤ) = place at *
  linarith

theorem brink_lt : brink < 2 * 2 ^ (1023 : ℤ) := by
  rw [brink, ← zpow_one_add₀ (by norm_num)]
  exact sub_lt_self _ (two_zpow_pos 970)

/-- Rounding takes less than a thousandth, and as much again from small numbers. -/
theorem Rounded.abs_sub_le_thousandth (h : Rounded x y) : |y - x| ≤ |x| / 1000 + 1 / 1000 := by
  have hgrain : 2 * grain ≤ 1 / 1000 := by
    have hpow : (2⁻¹ : ℚ) ^ 1074 ≤ 2⁻¹ ^ 11 :=
      pow_le_pow_of_le_one (by norm_num) (by norm_num) (by decide)
    rw [grain]
    exact (mul_le_mul_of_nonneg_left hpow zero_le_two).trans (by norm_num)
  have hulp : |x| * 2⁻¹ ^ 51 ≤ |x| / 1000 := by
    rw [div_eq_mul_inv]
    exact mul_le_mul_of_nonneg_left (by norm_num) (abs_nonneg x)
  exact h.abs_sub_le.trans (add_le_add hulp hgrain)

theorem Rounded.abs_le (h : Rounded x y) (hx : |x| ≤ bound) :
    |y| ≤ bound * (1001 / 1000) + 1 / 1000 := by
  have hclose := h.abs_sub_le_thousandth
  have htriangle := abs_sub_abs_le_abs_sub y x
  linarith

end Bounds

/-! ### Doubles in these bounds -/

section Doubles

variable {a b c k p q r reach : Float}

/-- The double, if it is finite, is well within the range. -/
def Tame (a : Float) : Prop := a.isFinite → |doubleValue a| ≤ brink / 8

theorem tame_div {bound size : ℚ} (ha : a.isFinite → |doubleValue a| ≤ bound) (hc : c.isFinite)
    (hsize : 0 < size) (hle : size ≤ doubleValue c) (hbound : bound / size ≤ brink / 9) :
    Tame (a / c) := by
  intro hfinite
  have hfa : a.isFinite := by
    by_contra hinfinite
    exact not_isFinite_div hinfinite hc hfinite
  have hbrink := thousand_le_brink
  have hsmall : |doubleValue a / doubleValue c| ≤ brink / 9 := by
    rw [abs_div, abs_of_nonneg (hsize.le.trans hle)]
    exact (div_le_div₀ ((abs_nonneg _).trans (ha hfa)) (ha hfa) hsize hle).trans hbound
  have hrange : |doubleValue a / doubleValue c| < 2 ^ (1023 : ℤ) := by
    have hlt := brink_lt
    generalize (2 : ℚ) ^ (1023 : ℤ) = top at *
    linarith
  have hrounded := rounded_div hfa hc (hsize.trans_le hle).ne' hrange
  have hquotient := hrounded.2.abs_le hsmall
  linarith

/-- What is divided by a large number is tame. -/
theorem tame_div_large (a : Float) (hc : c.isFinite) (hsize : 9 ≤ doubleValue c) :
    Tame (a / c) := by
  refine tame_div (fun _ => (abs_doubleValue_le a).trans ?_) hc (by norm_num) hsize le_rfl
  exact sub_le_self _ (two_zpow_pos 970).le

/-- What is tame stays so when it is divided by a number that is not small. -/
theorem Tame.div (ha : Tame a) (hc : c.isFinite) (hsize : 2 ≤ doubleValue c) : Tame (a / c) :=
  tame_div ha hc (by norm_num) hsize (by linarith [brink_pos])

/-- A small number is tame. -/
theorem tame_of_le (h : |doubleValue a| ≤ 125) : Tame a :=
  fun _ => h.trans (by linarith [thousand_le_brink])

/-! ### Constants -/

theorem doubleValue_of_unpacked {m : ℕ} {e : ℤ} {h : 0 < m}
    (ha : unpacked a = .finite .positive m e h) : doubleValue a = m * 2 ^ e := by
  rw [doubleValue, ha]
  rfl

theorem doubleValue_fifth : 199 / 1000 ≤ doubleValue 0.2 ∧ doubleValue 0.2 ≤ 201 / 1000 := by
  have hu : unpacked 0.2 = .finite .positive 7205759403792794 (-55) (by decide) := rfl
  rw [doubleValue_of_unpacked hu]
  norm_num

theorem doubleValue_one : doubleValue 1.0 = 1 := by
  have hu : unpacked 1.0 = .finite .positive 4503599627370496 (-52) (by decide) := rfl
  rw [doubleValue_of_unpacked hu]
  norm_num

theorem doubleValue_two : doubleValue 2.0 = 2 := by
  have hu : unpacked 2.0 = .finite .positive 4503599627370496 (-51) (by decide) := rfl
  rw [doubleValue_of_unpacked hu]
  norm_num

theorem doubleValue_ten : doubleValue 10.0 = 10 := by
  have hu : unpacked 10.0 = .finite .positive 5629499534213120 (-49) (by decide) := rfl
  rw [doubleValue_of_unpacked hu]
  norm_num

theorem doubleValue_twoHundred : doubleValue 200.0 = 200 := by
  have hu : unpacked 200.0 = .finite .positive 7036874417766400 (-45) (by decide) := rfl
  rw [doubleValue_of_unpacked hu]
  norm_num

theorem doubleValue_last : doubleValue 9007199254740992.0 = 2 ^ 53 := by
  have hu : unpacked 9007199254740992.0 = .finite .positive 4503599627370496 (1) (by decide) := rfl
  rw [doubleValue_of_unpacked hu]
  norm_num

/-! ### Random numbers -/

/-- A number that the generator can give, up to rounding. -/
structure IsShare (r : Float) : Prop where
  finite : r.isFinite
  nonneg : 0 ≤ doubleValue r
  le : doubleValue r ≤ 101 / 100

/-- **Displacements are in range.**  With a tame reach that is finite, so is the number between it
and its opposite that a share picks. -/
theorem isFinite_swing (hr : IsShare r) (hreach : reach.isFinite) (htame : Tame reach) :
    (r * (reach - -reach) + -reach).isFinite := by
  have hbrink := thousand_le_brink
  have hsize := htame hreach
  have hneg := isFinite_neg_iff.mpr hreach
  have hspan : |doubleValue reach - doubleValue (-reach)| ≤ brink / 4 := by
    rw [doubleValue_neg]
    exact (abs_sub _ _).trans (by rw [abs_neg]; linarith)
  have hspanFinite : (reach - -reach).isFinite :=
    (isFinite_sub_iff hreach hneg).mpr (by linarith)
  have hspanned := (rounded_sub hreach hneg hspanFinite).abs_le hspan
  have hpart : |doubleValue r * doubleValue (reach - -reach)| ≤ brink * (3 / 10) := by
    rw [abs_mul, abs_of_nonneg hr.nonneg]
    calc doubleValue r * |doubleValue (reach - -reach)|
        ≤ 101 / 100 * (brink / 4 * (1001 / 1000) + 1 / 1000) :=
          mul_le_mul hr.le hspanned (abs_nonneg _) (by norm_num)
      _ ≤ brink * (3 / 10) := by linarith
  have hpartFinite : (r * (reach - -reach)).isFinite :=
    (isFinite_mul_iff hr.finite hspanFinite).mpr (by linarith)
  have hparted := (rounded_mul hr.finite hspanFinite hpartFinite).abs_le hpart
  refine (isFinite_add_iff hpartFinite hneg).mpr ((abs_add_le _ _).trans_lt ?_)
  rw [doubleValue_neg, abs_neg]
  linarith

/-- A whole number of 53 bits as a double. -/
theorem rounded_toFloat {n : ℕ} (hn : n < 2 ^ 53) : n.toFloat.isFinite ∧
    0 ≤ doubleValue n.toFloat ∧ doubleValue n.toFloat ≤ 2 ^ 53 * (1003 / 1000) := by
  have hbrink := thousand_le_brink
  have hlarge : (2 : ℚ) ^ 53 * 2 ≤ brink := by
    have hplace : (2 : ℚ) ^ (2 : ℤ) ≤ 2 ^ (971 : ℤ) :=
      zpow_le_zpow_right₀ (by norm_num) (by decide)
    have htop := brink_eq
    generalize (2 : ℚ) ^ (971 : ℤ) = place at *
    norm_num at hplace
    linarith
  have hsplit : n.toFloat = n.toUInt64.toFloat * 1.0 := by
    change Float.ofScientific n false 0 = _
    rw [Float.ofScientific, dif_pos ⟨hn, by decide⟩]
    rfl
  have hword : n.toUInt64.toNat = n := by
    rw [Nat.toUInt64, UInt64.toNat_ofNat']
    exact Nat.mod_eq_of_lt (by omega)
  have hn' : (n : ℚ) ≤ 2 ^ 53 := by exact_mod_cast hn.le
  have hn0 : (0 : ℚ) ≤ n := Nat.cast_nonneg n
  have hexact := rounding_normalize n 0 .positive
  rw [zpow_zero, mul_one, Int.cast_natCast] at hexact
  have hwhole := (hexact.near (by rw [abs_of_nonneg hn0]; linarith)).double
  rw [show Float.ofModel (Float.Model.pack (UnpackedFloat.normalize .binary64 n 0 .positive)) =
    n.toUInt64.toFloat by rw [UInt64.toFloat, Float.Model.ofUInt64, UnpackedFloat.ofUInt64,
      UnpackedFloat.ofNat, UnpackedFloat.ofInt, hword]] at hwhole
  obtain ⟨hfinite, hrounded⟩ := hwhole
  have hsize := hrounded.abs_le ((abs_of_nonneg hn0).trans_le hn')
  have hsign := hrounded.nonneg hn0
  have hone : (1.0 : Float).isFinite := rfl
  have hproduct : |doubleValue n.toUInt64.toFloat * doubleValue 1.0| ≤
      2 ^ 53 * (1001 / 1000) + 1 / 1000 := by
    rwa [doubleValue_one, mul_one]
  have hfinite' := (isFinite_mul_iff hfinite hone).mpr (hproduct.trans_lt (by linarith))
  have hrounded' := rounded_mul hfinite hone hfinite'
  have hsize' := hrounded'.abs_le hproduct
  rw [hsplit]
  refine ⟨hfinite', hrounded'.nonneg (by rwa [doubleValue_one, mul_one]), ?_⟩
  exact (le_abs_self _).trans (hsize'.trans (by norm_num))

theorem isShare_toFloat_div {n : ℕ} (hn : n < 2 ^ 53) :
    IsShare (n.toFloat / 9007199254740992.0) := by
  obtain ⟨hfinite, hsign, hsize⟩ := rounded_toFloat hn
  have hlast : (9007199254740992.0 : Float).isFinite := rfl
  have hpow : (0 : ℚ) < 2 ^ 53 := by norm_num
  have hquotient : |doubleValue n.toFloat / doubleValue 9007199254740992.0| ≤ 1003 / 1000 := by
    rwa [doubleValue_last, abs_of_nonneg (div_nonneg hsign hpow.le), div_le_iff₀ hpow, mul_comm]
  have hrange : (1003 / 1000 : ℚ) < 2 ^ (1023 : ℤ) := by
    have hlt := brink_lt
    have hbrink := thousand_le_brink
    generalize (2 : ℚ) ^ (1023 : ℤ) = top at *
    linarith
  obtain ⟨hfinite', hrounded⟩ := rounded_div hfinite hlast (by rw [doubleValue_last]; exact hpow.ne')
    (hquotient.trans_lt hrange)
  refine ⟨hfinite', hrounded.nonneg (div_nonneg hsign ?_), ?_⟩
  · rw [doubleValue_last]
    exact hpow.le
  · exact (le_abs_self _).trans ((hrounded.abs_le hquotient).trans (by norm_num))

/-- **The numbers of the generator** are shares. -/
theorem isShare_draw (t : Random.Twister) : IsShare (Random.Twister.draw t).1 := by
  have hbits : (9007199254740992 : ℕ) = 2 ^ 53 := by norm_num
  exact isShare_toFloat_div ((Random.Twister.highBits_lt _ _).trans_eq hbits)

/-! ### Control points of straight segments -/

/-- A share of a segment at which a control point can lie, up to rounding. -/
structure IsDiverge (k : Float) : Prop where
  finite : k.isFinite
  pos : 0 < doubleValue k
  le : doubleValue k ≤ 41 / 100

/-- The share at which the near control point of a segment lies, from a random number. -/
theorem isDiverge_of_isShare (hr : IsShare r) : IsDiverge (0.2 + r * 0.2) := by
  have hbrink := thousand_le_brink
  obtain ⟨hlow, hhigh⟩ := doubleValue_fifth
  have hfifth : (0.2 : Float).isFinite := rfl
  have hpart : |doubleValue r * doubleValue 0.2| ≤ 101 / 100 * (201 / 1000) := by
    rw [abs_of_nonneg (mul_nonneg hr.nonneg (by linarith))]
    exact mul_le_mul hr.le hhigh (by linarith) (by norm_num)
  have hfinite := (isFinite_mul_iff hr.finite hfifth).mpr (hpart.trans_lt (by linarith))
  have hrounded := rounded_mul hr.finite hfifth hfinite
  have hsign := hrounded.nonneg (mul_nonneg hr.nonneg (by linarith))
  have hsize := (le_abs_self _).trans (hrounded.abs_le hpart)
  have hsum : |doubleValue 0.2 + doubleValue (r * 0.2)| ≤ 406 / 1000 := by
    rw [abs_of_nonneg (by linarith)]
    linarith
  have hfinite' := (isFinite_add_iff hfifth hfinite).mpr (hsum.trans_lt (by linarith))
  have hrounded' := rounded_add hfifth hfinite hfinite'
  have hclose := abs_le.mp hrounded'.abs_sub_le_thousandth
  refine ⟨hfinite', by linarith [hclose.1], ?_⟩
  exact (le_abs_self _).trans ((hrounded'.abs_le hsum).trans (by norm_num))

/-- A step from one finite double towards another, or hardly farther, is in range. -/
theorem isFinite_add_of_toward (hp : p.isFinite) (ha : a.isFinite)
    (hpos : doubleValue p ≤ doubleValue q → 0 ≤ doubleValue a)
    (hneg : doubleValue q ≤ doubleValue p → doubleValue a ≤ 0)
    (hle : |doubleValue a| ≤ |doubleValue q - doubleValue p| + 1) : (p + a).isFinite := by
  have hplace : (1 : ℚ) < 2 ^ (970 : ℤ) := one_lt_zpow₀ (by norm_num) (by decide)
  have hp' := abs_le.mp (abs_doubleValue_le p)
  have hq' := abs_le.mp (abs_doubleValue_le q)
  rw [isFinite_add_iff hp ha, abs_lt]
  generalize (2 : ℚ) ^ (970 : ℤ) = place at *
  rcases le_total (doubleValue p) (doubleValue q) with h | h
  · have hsign := hpos h
    rw [abs_of_nonneg hsign, abs_of_nonneg (by linarith)] at hle
    exact ⟨by linarith, by linarith⟩
  · have hsign := hneg h
    rw [abs_of_nonpos hsign, abs_of_nonpos (by linarith)] at hle
    exact ⟨by linarith, by linarith⟩

/-- The part of a finite double that a diverging share says. -/
theorem part_of_isDiverge (hk : IsDiverge k) (ha : a.isFinite) : (a * k).isFinite ∧
    (0 ≤ doubleValue a → 0 ≤ doubleValue (a * k)) ∧
    (doubleValue a ≤ 0 → doubleValue (a * k) ≤ 0) ∧
    |doubleValue (a * k)| ≤ |doubleValue a| * (42 / 100) + 1 / 1000 := by
  have hexact : |doubleValue a * doubleValue k| ≤ |doubleValue a| * (41 / 100) := by
    rw [abs_mul, abs_of_pos hk.pos]
    exact mul_le_mul_of_nonneg_left hk.le (abs_nonneg _)
  have hsize := abs_doubleValue_le a
  have hplace := two_zpow_pos 970
  have hbrink := brink_pos
  have hfinite : (a * k).isFinite := by
    rw [isFinite_mul_iff ha hk.finite]
    generalize (2 : ℚ) ^ (970 : ℤ) = place at *
    linarith
  have hrounded := rounded_mul ha hk.finite hfinite
  have hbound := hrounded.abs_le hexact
  exact ⟨hfinite, fun h => hrounded.nonneg (mul_nonneg h hk.pos.le),
    fun h => hrounded.nonpos (mul_nonpos_of_nonpos_of_nonneg h hk.pos.le),
    hbound.trans (by linarith [abs_nonneg (doubleValue a)])⟩

/-- **The near control point of a straight segment** is in range if the segment is. -/
theorem isFinite_arm (hk : IsDiverge k) (hp : p.isFinite) (hq : q.isFinite)
    (hspan : (q - p).isFinite) : (p + (q - p) * k).isFinite := by
  have hrounded := rounded_sub hq hp hspan
  have hsize := hrounded.abs_le le_rfl
  obtain ⟨hfinite, hpos, hneg, hle⟩ := part_of_isDiverge hk hspan
  refine isFinite_add_of_toward (q := q) hp hfinite (fun h => ?_) (fun h => ?_) ?_
  · exact hpos (hrounded.nonneg (sub_nonneg.mpr h))
  · exact hneg (hrounded.nonpos (sub_nonpos.mpr h))
  · linarith [abs_nonneg (doubleValue q - doubleValue p)]

/-- **The far control point of a straight segment** is in range if twice the segment is. -/
theorem isFinite_farArm (hk : IsDiverge k) (hp : p.isFinite) (hq : q.isFinite)
    (hspan : (q - p).isFinite) (hdouble : (2.0 * (q - p)).isFinite) :
    (p + 2.0 * (q - p) * k).isFinite := by
  have htwo : (2.0 : Float).isFinite := rfl
  have hrounded := rounded_sub hq hp hspan
  have hsize := hrounded.abs_le le_rfl
  have hdoubled := rounded_mul htwo hspan hdouble
  have hdoubleSize := hdoubled.abs_le le_rfl
  rw [doubleValue_two, abs_mul, abs_two] at hdoubleSize
  rw [doubleValue_two] at hdoubled
  obtain ⟨hfinite, hpos, hneg, hle⟩ := part_of_isDiverge hk hdouble
  refine isFinite_add_of_toward (q := q) hp hfinite (fun h => ?_) (fun h => ?_) ?_
  · have hsign := hrounded.nonneg (sub_nonneg.mpr h)
    exact hpos (hdoubled.nonneg (mul_nonneg zero_le_two hsign))
  · have hsign := hrounded.nonpos (sub_nonpos.mpr h)
    exact hneg (hdoubled.nonpos (mul_nonpos_of_nonneg_of_nonpos zero_le_two hsign))
  · linarith [abs_nonneg (doubleValue q - doubleValue p)]

/-! ### Numbers that are no obstacle -/

theorem writeFault?_eq_none_iff : doubleWriteFault? a = none ↔ a.isFinite := by
  rw [isFinite_iff, doubleWriteFault?]
  split_ifs <;> simp_all

/-- Both are zeros, or both are no numbers. -/
def Null (a b : Float) : Prop := IsZero a ∧ IsZero b ∨ a.isNaN ∧ b.isNaN

/-- The control points of a straight segment can be written or not, whatever their shares are. -/
theorem writeFault?_arm {m m' span k' : Float} (hm : Null m m') (hk : IsDiverge k)
    (hk' : IsDiverge k')
    (hspan : span.isFinite → ∀ k, IsDiverge k → (p + span * k).isFinite) :
    doubleWriteFault? (m + p + span * k) = doubleWriteFault? (m' + p + span * k') := by
  have hnan : ∀ {m : Float} (k : Float), m.isNaN →
      doubleWriteFault? (m + p + span * k) = some .nan := fun k hm => by
    rw [doubleWriteFault?, if_pos (isNaN_add_left (isNaN_add_left hm _) _)]
  rcases hm with ⟨hm, hm'⟩ | ⟨hm, hm'⟩
  · have halike := fun {m k : Float} (hm : IsZero m) =>
      writeFault?_of_alike ((Alike.zero_add hm p).add (Alike.refl (span * k)))
    rw [halike hm, halike hm']
    by_cases hfinite : span.isFinite
    · rw [writeFault?_eq_none_iff.mpr (hspan hfinite k hk),
        writeFault?_eq_none_iff.mpr (hspan hfinite k' hk')]
    · rw [mul_eq_of_not_isFinite hfinite hk.pos, mul_eq_of_not_isFinite hfinite hk'.pos]
  · rw [hnan k hm, hnan k' hm']

end Doubles

end Scrawl.Decimal
