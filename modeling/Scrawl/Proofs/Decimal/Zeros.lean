import Scrawl.Proofs.Decimal.Arithmetic
import Scrawl.Svg.Number

/-!
# Scrawl.Proofs.Decimal.Zeros — doubles up to the sign of zero

Doubles that are told apart by the sign of zero at most stay so under sums, differences and
quotients, and are written alike.

* `Alike`: the relation, with `Alike.add`, `Alike.sub`, `Alike.div`.
* `number_of_alike`, `writeFault?_of_alike`: how such doubles are written.
* `IsZero.mul`, `isNaN_zero_mul`: a zero times a double.
-/

namespace Scrawl.Decimal

open Float.Model (UnpackedFloat)
open Binary

/-- A zero of either sign. -/
def IsZero (a : Float) : Prop := ∃ s, unpacked a = .zero s

/-- Doubles that are told apart by the sign of zero at most. -/
def Alike (a b : Float) : Prop := a = b ∨ IsZero a ∧ IsZero b

section Zeros

variable {a b c z : Float}

/-! ### Results of the operations -/

theorem unpacked_add (a b : Float) :
    unpacked (a + b) = repacked (UnpackedFloat.add .binary64 (unpacked a) (unpacked b)) := rfl

theorem unpacked_mul (a b : Float) :
    unpacked (a * b) = repacked (UnpackedFloat.mul .binary64 (unpacked a) (unpacked b)) := rfl

theorem unpacked_div (a b : Float) :
    unpacked (a / b) = repacked (UnpackedFloat.div .binary64 (unpacked a) (unpacked b)) := rfl

@[simp] theorem repacked_notANumber : repacked .notANumber = .notANumber := rfl

@[simp] theorem repacked_infinity (s : UnpackedFloat.Sign) :
    repacked (.infinity s) = .infinity s := repacked_eq trivial

@[simp] theorem repacked_zero (s : UnpackedFloat.Sign) : repacked (.zero s) = .zero s :=
  repacked_eq ⟨by decide, Or.inr rfl, le_rfl, by decide⟩

theorem repacked_unpacked (a : Float) : repacked (unpacked a) = unpacked a :=
  repacked_eq (isDouble_unpacked a)

theorem isNaN_iff : a.isNaN ↔ unpacked a = .notANumber := by
  change (unpacked a).isNaN = true ↔ _
  cases unpacked a <;> simp [UnpackedFloat.isNaN]

theorem isInf_iff : a.isInf ↔ ∃ s, unpacked a = .infinity s := by
  change (unpacked a).isInf = true ↔ _
  cases unpacked a <;> simp [UnpackedFloat.isInf]

theorem isFinite_iff : a.isFinite ↔ ¬ a.isNaN ∧ ¬ a.isInf := by
  change (unpacked a).isFinite = true ↔ ¬ (unpacked a).isNaN = true ∧ ¬ (unpacked a).isInf = true
  cases unpacked a <;>
    simp [UnpackedFloat.isFinite, UnpackedFloat.isNaN, UnpackedFloat.isInf]

theorem IsZero.isFinite (h : IsZero a) : a.isFinite := by
  obtain ⟨s, hs⟩ := h
  change (unpacked a).isFinite
  rw [hs]
  rfl

theorem isNaN_add_left (ha : a.isNaN) (b : Float) : (a + b).isNaN := by
  rw [isNaN_iff] at ha ⊢
  rw [unpacked_add, ha]
  exact repacked_notANumber

theorem isNaN_add_right (a : Float) (hb : b.isNaN) : (a + b).isNaN := by
  rw [isNaN_iff] at hb ⊢
  rw [unpacked_add, hb]
  cases unpacked a <;> exact repacked_notANumber

theorem isNaN_mul_left (ha : a.isNaN) (b : Float) : (a * b).isNaN := by
  rw [isNaN_iff] at ha ⊢
  rw [unpacked_mul, ha]
  exact repacked_notANumber

theorem not_isFinite_iff :
    ¬ a.isFinite ↔ unpacked a = .notANumber ∨ ∃ s, unpacked a = .infinity s := by
  change ¬ (unpacked a).isFinite = true ↔ _
  cases unpacked a <;> simp [UnpackedFloat.isFinite]

/-- What is added to a double that is not finite does not make it finite. -/
theorem not_isFinite_add_right (a : Float) (hb : ¬ b.isFinite) : ¬ (a + b).isFinite := by
  change ¬ (unpacked (a + b)).isFinite
  rw [unpacked_add]
  rcases not_isFinite_iff.mp hb with hu | ⟨s, hu⟩ <;> rw [hu]
  · cases unpacked a <;> simp [UnpackedFloat.add, UnpackedFloat.isFinite]
  · cases unpacked a with
    | infinity t => cases s <;> cases t <;> simp [UnpackedFloat.add, UnpackedFloat.isFinite]
    | notANumber | zero t | finite t m e hm => simp [UnpackedFloat.add, UnpackedFloat.isFinite]

theorem not_isFinite_add_left (ha : ¬ a.isFinite) (b : Float) : ¬ (a + b).isFinite := by
  change ¬ (unpacked (a + b)).isFinite
  rw [unpacked_add]
  rcases not_isFinite_iff.mp ha with hu | ⟨s, hu⟩ <;> rw [hu]
  · cases unpacked b <;> simp [UnpackedFloat.add, UnpackedFloat.isFinite]
  · cases unpacked b with
    | infinity t => cases s <;> cases t <;> simp [UnpackedFloat.add, UnpackedFloat.isFinite]
    | notANumber | zero t | finite t m e hm => simp [UnpackedFloat.add, UnpackedFloat.isFinite]

theorem not_isFinite_mul_right (a : Float) (hb : ¬ b.isFinite) : ¬ (a * b).isFinite := by
  change ¬ (unpacked (a * b)).isFinite
  rw [unpacked_mul]
  rcases not_isFinite_iff.mp hb with hu | ⟨s, hu⟩ <;> rw [hu] <;>
    cases unpacked a <;> simp [UnpackedFloat.mul, UnpackedFloat.isFinite]

/-- What is divided by a finite double is not finite unless it was finite itself. -/
theorem not_isFinite_div (ha : ¬ a.isFinite) (hc : c.isFinite) : ¬ (a / c).isFinite := by
  change (unpacked c).isFinite at hc
  change ¬ (unpacked (a / c)).isFinite
  rw [unpacked_div]
  cases hv : unpacked c with
  | notANumber | infinity t =>
    rw [hv] at hc
    cases hc
  | zero t | finite t m e hm =>
    rcases not_isFinite_iff.mp ha with hu | ⟨s, hu⟩ <;> rw [hu] <;>
      simp [UnpackedFloat.div, UnpackedFloat.isFinite]

/-- A positive multiple of a double that is not finite is that double. -/
theorem mul_eq_of_not_isFinite (ha : ¬ a.isFinite) (hc : 0 < doubleValue c) : a * c = a := by
  refine eq_of_unpacked_eq ?_
  rw [unpacked_mul]
  cases hv : unpacked c with
  | notANumber | infinity t | zero t =>
    rw [doubleValue, hv] at hc
    exact absurd hc (lt_irrefl 0)
  | finite t m e hm =>
    cases t with
    | positive =>
      rcases not_isFinite_iff.mp ha with hu | ⟨s, hu⟩ <;> rw [hu]
      · exact repacked_notANumber
      · cases s <;> exact repacked_infinity _
    | negative =>
      rw [doubleValue, hv, value, apply_mul] at hc
      have hsize : (0 : ℚ) ≤ m * 2 ^ e := mul_nonneg (Nat.cast_nonneg m) (two_zpow_pos e).le
      simp only [UnpackedFloat.Sign.apply, Int.cast_neg, Int.cast_one, neg_one_mul] at hc
      linarith

/-- A zero times a finite double is a zero. -/
theorem IsZero.mul (hz : IsZero z) (ha : a.isFinite) : IsZero (z * a) := by
  obtain ⟨s, hs⟩ := hz
  change (unpacked a).isFinite at ha
  rw [IsZero, unpacked_mul, hs]
  cases hu : unpacked a with
  | notANumber | infinity t =>
    rw [hu] at ha
    cases ha
  | zero t | finite t m e hm => exact ⟨s * t, repacked_zero _⟩

/-- A zero times a double that is not finite is no number. -/
theorem isNaN_zero_mul (hz : IsZero z) (ha : ¬ a.isFinite) : (z * a).isNaN := by
  obtain ⟨s, hs⟩ := hz
  change ¬ (unpacked a).isFinite at ha
  rw [isNaN_iff, unpacked_mul, hs]
  cases hu : unpacked a with
  | notANumber | infinity t => exact repacked_notANumber
  | zero t | finite t m e hm =>
    rw [hu] at ha
    exact absurd rfl ha

/-! ### Up to the sign of zero -/

namespace Alike

theorem refl (a : Float) : Alike a a := Or.inl rfl

theorem symm (h : Alike a b) : Alike b a := by
  rcases h with rfl | ⟨ha, hb⟩
  · exact refl a
  · exact Or.inr ⟨hb, ha⟩

theorem trans (h : Alike a b) (h' : Alike b c) : Alike a c := by
  rcases h with rfl | ⟨ha, hb⟩
  · exact h'
  · rcases h' with rfl | ⟨-, hc⟩
    · exact Or.inr ⟨ha, hb⟩
    · exact Or.inr ⟨ha, hc⟩

/-- Adding a zero changes the sign of zero at most. -/
theorem add_zero (a : Float) (hz : IsZero z) : Alike (a + z) a := by
  obtain ⟨s, hs⟩ := hz
  have hsum := unpacked_add a z
  have hself := repacked_unpacked a
  rw [hs] at hsum
  cases hu : unpacked a with
  | notANumber | infinity t | finite t m e hm =>
    rw [hu] at hsum hself
    exact Or.inl (eq_of_unpacked_eq ((hsum.trans hself).trans hu.symm))
  | zero t =>
    refine Or.inr ⟨?_, t, hu⟩
    rw [hu] at hsum
    cases t <;> cases s <;> exact ⟨_, hsum.trans (repacked_zero _)⟩

theorem zero_add (hz : IsZero z) (a : Float) : Alike (z + a) a := by
  obtain ⟨s, hs⟩ := hz
  have hsum := unpacked_add z a
  have hself := repacked_unpacked a
  rw [hs] at hsum
  cases hu : unpacked a with
  | notANumber | infinity t | finite t m e hm =>
    rw [hu] at hsum hself
    exact Or.inl (eq_of_unpacked_eq ((hsum.trans hself).trans hu.symm))
  | zero t =>
    refine Or.inr ⟨?_, t, hu⟩
    rw [hu] at hsum
    cases t <;> cases s <;> exact ⟨_, hsum.trans (repacked_zero _)⟩

theorem add {a' b' : Float} (ha : Alike a a') (hb : Alike b b') : Alike (a + b) (a' + b') := by
  have hright : Alike (a + b) (a + b') := by
    rcases hb with rfl | ⟨hb, hb'⟩
    · exact refl _
    · exact (add_zero a hb).trans (add_zero a hb').symm
  refine hright.trans ?_
  rcases ha with rfl | ⟨ha, ha'⟩
  · exact refl _
  · exact (zero_add ha b').trans (zero_add ha' b').symm

theorem neg {a' : Float} (ha : Alike a a') : Alike (-a) (-a') := by
  have hzero : ∀ {z : Float}, IsZero z → IsZero (-z) := by
    rintro z ⟨s, hs⟩
    exact ⟨-s, by rw [unpacked_neg, hs]; rfl⟩
  rcases ha with rfl | ⟨ha, ha'⟩
  · exact refl _
  · exact Or.inr ⟨hzero ha, hzero ha'⟩

theorem sub {a' b' : Float} (ha : Alike a a') (hb : Alike b b') : Alike (a - b) (a' - b') := by
  rw [double_sub_eq, double_sub_eq]
  exact ha.add hb.neg

theorem div {a' : Float} (ha : Alike a a') (c : Float) : Alike (a / c) (a' / c) := by
  rcases ha with rfl | ⟨⟨s, hs⟩, t, ht⟩
  · exact refl _
  · have hquotient := unpacked_div a c
    have hquotient' := unpacked_div a' c
    rw [hs] at hquotient
    rw [ht] at hquotient'
    cases hu : unpacked c with
    | notANumber | zero _ =>
      rw [hu] at hquotient hquotient'
      exact Or.inl (eq_of_unpacked_eq (hquotient.trans hquotient'.symm))
    | infinity _ | finite _ _ _ _ =>
      rw [hu] at hquotient hquotient'
      exact Or.inr ⟨⟨_, hquotient.trans (repacked_zero _)⟩, _,
        hquotient'.trans (repacked_zero _)⟩

end Alike

/-- Such doubles can be written or not alike. -/
theorem writeFault?_of_alike (h : Alike a b) : doubleWriteFault? a = doubleWriteFault? b := by
  have hzero : ∀ {z : Float}, IsZero z → doubleWriteFault? z = none := by
    intro z hz
    obtain ⟨hnan, hinf⟩ := isFinite_iff.mp hz.isFinite
    rw [doubleWriteFault?, if_neg hnan, if_neg hinf]
  rcases h with rfl | ⟨ha, hb⟩
  · rfl
  · rw [hzero ha, hzero hb]

/-- **Doubles that are told apart by the sign of zero at most are written alike.** -/
theorem number_of_alike (h : Alike a b) : Svg.number a = Svg.number b := by
  have hdigits : ∀ negative, Svg.numberChars negative 0 minExponent = ['0'] := by decide +kernel
  have hzero : ∀ {z : Float}, IsZero z → Svg.number z = "0" := by
    rintro z ⟨s, hs⟩
    rw [Svg.number, ofFloat_eq, show z.toModel.unpack = .zero s from hs, ofUnpacked,
      Svg.valueChars, hdigits]
  rcases h with rfl | ⟨ha, hb⟩
  · rfl
  · rw [hzero ha, hzero hb]

end Zeros

end Scrawl.Decimal
