import Scrawl.Proofs.Stroke.Magnitudes
import Scrawl.Proofs.Svg.Snapping
import Scrawl.Font.Size

/-!
# Scrawl.Proofs.Svg.Numbers — numbers as they are written in a drawing

The text of a number is a figure without an exponent, with three decimal places at most and no zero
at the end of them.

* `trimPlaces_append_zeros`, `trimPlaces_point`: what is removed behind the last place that counts.
* `exists_figure_numberChars`: the digits that are written, and their value.
* `number?_near_ordered`: what is written is near to the number, and in the order of the numbers.
-/

namespace Scrawl.Svg

open Decimal Binary

/-- A figure as numbers are written in a drawing: a minus or no sign, digits, and a point only with
one to three digits behind it that do not end in zero. -/
structure IsShort (f : Figure) : Prop where
  sign : f.sign ≠ .plus
  whole : f.whole ≠ []
  part : ∀ ds ∈ f.part, ds ≠ [] ∧ ds.length ≤ 3 ∧ ds.getLast? ≠ some 0
  exponent : f.exponent = none

/-! ### Digits -/

theorem exists_digits {cs : List Char} (h : ∀ c ∈ cs, c.isDigit) :
    ∃ ds : Digits, ds.chars = cs := by
  have hdigit : ∀ c : Char, c.isDigit → ∃ d : Fin 10, Nat.digitChar d = c := by
    intro c hc
    obtain ⟨hlow, hhigh⟩ := isDigit_range hc
    have hall : ∀ d : Fin 10, Nat.digitChar d = Char.ofNat (48 + d) := by decide
    refine ⟨⟨c.toNat - 48, by omega⟩, (hall _).trans ?_⟩
    rw [Nat.add_sub_cancel' hlow, Char.ofNat_toNat]
  induction cs with
  | nil => exact ⟨[], rfl⟩
  | cons c cs ih =>
    obtain ⟨hc, hcs⟩ := List.forall_mem_cons.mp h
    obtain ⟨d, rfl⟩ := hdigit c hc
    obtain ⟨ds, rfl⟩ := ih hcs
    exact ⟨d :: ds, rfl⟩

theorem exists_natDigits (n : ℕ) : ∃ ds : Digits, ds.chars = natDigits n ∧ ds ≠ [] := by
  obtain ⟨ds, hds⟩ := exists_digits fun _ => isDigit_of_mem_natDigits (n := n)
  refine ⟨ds, hds, fun h => ?_⟩
  rw [h] at hds
  exact Nat.toDigits_ne_nil hds.symm

/-- Digits are followed by the zeros at their end. -/
theorem exists_zeros (ds : Digits) : ∃ (es : Digits) (k : ℕ),
    ds = es ++ List.replicate k 0 ∧ es.getLast? ≠ some 0 := by
  induction ds using List.reverseRecOn with
  | nil => exact ⟨[], 0, rfl, by simp⟩
  | append_singleton ds d ih =>
    by_cases hd : d = 0
    · obtain ⟨es, k, rfl, hlast⟩ := ih
      exact ⟨es, k + 1, by rw [List.replicate_succ', hd, List.append_assoc], hlast⟩
    · exact ⟨ds ++ [d], 0, by simp, by simpa using hd⟩

/-! ### The places that count -/

theorem trimPlaces_append_zeros (cs : List Char) (k : ℕ) :
    trimPlaces (cs ++ List.replicate k '0') = trimPlaces cs := by
  have hzeros : ∀ c ∈ List.replicate k '0', (c == '0') = true := fun c hc =>
    beq_iff_eq.mpr (List.eq_of_mem_replicate hc)
  simp only [trimPlaces, List.reverse_append, List.reverse_replicate,
    List.dropWhile_append_of_pos hzeros]

theorem trimPlaces_point (cs : List Char) : trimPlaces (cs ++ ['.']) = cs := by
  simp [trimPlaces]

theorem trimPlaces_of_last {cs : List Char} {c : Char} (hzero : c ≠ '0') (hpoint : c ≠ '.') :
    trimPlaces (cs ++ [c]) = cs ++ [c] := by
  simp [trimPlaces, hzero, hpoint]

section Short

variable (negative : Bool) {whole part : Digits} (hne : whole ≠ [])

/-- The figure of digits around a point, which is left out if nothing is behind it. -/
def short (negative : Bool) (whole part : Digits) (hne : whole ≠ []) : Figure where
  sign := if negative then .minus else .unsigned
  whole := whole
  part := if part = [] then none else some part
  nonempty := List.append_ne_nil_of_left_ne_nil hne _

theorem isShort_short (hlength : part.length ≤ 3) (hlast : part.getLast? ≠ some 0) :
    IsShort (short negative whole part hne) := by
  refine ⟨by cases negative <;> exact SignMark.noConfusion, hne, fun ds hds => ?_, rfl⟩
  change ds ∈ (if part = [] then none else some part) at hds
  split_ifs at hds with hnil
  · cases hds
  · cases hds
    exact ⟨hnil, hlength, hlast⟩

theorem value_short : (short negative whole part hne).value =
    (if negative then -1 else 1) *
      (Digits.value (whole ++ part) * 10 ^ (-(part.length : ℤ))) := by
  have hpart : (if part = [] then none else some part).getD [] = part := by
    split_ifs with hnil
    · exact hnil.symm
    · rfl
  simp only [Figure.value, Figure.place, short, hpart]
  cases negative <;> simp [SignMark.apply, SignMark.isMinus]

theorem chars_short_nil :
    (short negative whole [] hne).chars = signChars negative ++ whole.chars := by
  cases negative <;> simp [Figure.chars, Figure.unsigned, short, SignMark.chars, signChars]

theorem chars_short_of_ne_nil (hnil : part ≠ []) : (short negative whole part hne).chars =
    signChars negative ++ whole.chars ++ '.' :: part.chars := by
  cases negative <;> simp [Figure.chars, Figure.unsigned, short, SignMark.chars, signChars, hnil]

/-- **What is left of places is the figure**, if the last digit is not zero. -/
theorem chars_short (hlast : part.getLast? ≠ some 0) : (short negative whole part hne).chars =
    trimPlaces (signChars negative ++ whole.chars ++ '.' :: part.chars) := by
  by_cases hnil : part = []
  · subst hnil
    rw [chars_short_nil]
    exact (trimPlaces_point _).symm
  · rw [chars_short_of_ne_nil negative hne hnil]
    obtain ⟨ds, d, rfl⟩ : ∃ (ds : Digits) (d : Fin 10), part = ds ++ [d] :=
      ⟨_, _, (List.dropLast_append_getLast hnil).symm⟩
    have hd : d ≠ 0 := by simpa using hlast
    have hmark : ∀ d : Fin 10, d ≠ 0 → Nat.digitChar d ≠ '0' ∧ Nat.digitChar d ≠ '.' := by decide
    have hchars : Digits.chars (ds ++ [d]) = ds.chars ++ [Nat.digitChar d] := List.map_append
    rw [hchars, ← List.cons_append, ← List.append_assoc]
    exact (trimPlaces_of_last (hmark d hd).1 (hmark d hd).2).symm

end Short

section Figures

variable (negative : Bool) (m n : ℕ) (e : ℤ)

theorem exists_figure_whole : ∃ f : Figure, IsShort f ∧
    f.chars = signChars negative ++ natDigits n ∧ f.value = (if negative then -1 else 1) * n := by
  obtain ⟨ds, hds, hne⟩ := exists_natDigits n
  have hvalue : ds.value = n := by rw [← digitsValue_chars, hds, digitsValue_natDigits]
  refine ⟨short negative ds [] hne, isShort_short negative hne (by decide) (by simp), ?_, ?_⟩
  · rw [chars_short_nil, hds]
  · simp [value_short, hvalue]

theorem exists_figure_places : ∃ f : Figure, IsShort f ∧
    f.chars = trimPlaces (signChars negative ++ placePoint 3 n) ∧
      f.value = (if negative then -1 else 1) * (n / 1000) := by
  obtain ⟨ws, hws, hne⟩ := exists_natDigits (n / 10 ^ 3)
  have hdigit : ∀ c ∈ partDigits 3 n, c.isDigit := fun _ => isDigit_of_mem_partDigits n
  obtain ⟨ps, hps⟩ := exists_digits hdigit
  obtain ⟨es, k, rfl, hlast⟩ := exists_zeros ps
  have hchars : Digits.chars (es ++ List.replicate k 0) = es.chars ++ List.replicate k '0' := by
    simp [Digits.chars]
  rw [hchars] at hps
  have hlength : es.length + k = 3 := by
    have h := length_partDigits n (by decide : 3 ≠ 0)
    rw [← hps] at h
    simpa using h
  have hvalue : 10 ^ k * Digits.value (ws ++ es) = n := by
    have h := digitsValue_placePoint n (by decide : 3 ≠ 0)
    rwa [← hws, ← hps, ← List.append_assoc, ← Digits.chars_append, digitsValue_append,
      digitsValue_zeros, List.length_replicate, digitsValue_chars, Nat.add_zero] at h
  have hthousandths :
      (Digits.value (ws ++ es) : ℚ) * 10 ^ (-(es.length : ℤ)) = n / 1000 := by
    have hpow : (1000 : ℚ) = 10 ^ k * 10 ^ es.length := by
      rw [← pow_add, Nat.add_comm, hlength]
      norm_num
    rw [← hvalue, hpow, Nat.cast_mul, Nat.cast_pow, Nat.cast_ofNat, zpow_neg, zpow_natCast,
      mul_div_mul_left _ _ (by positivity), div_eq_mul_inv]
  refine ⟨short negative ws es hne, isShort_short negative hne (by omega) hlast, ?_, ?_⟩
  · rw [chars_short negative hne hlast, ← trimPlaces_append_zeros _ k, placePoint_eq n (by decide),
      ← hws, ← hps]
    simp
  · rw [value_short, hthousandths]

theorem numberChars_of_snaps (h : Snaps m e) : numberChars negative m e =
    signChars (negative && nearestWhole m e != 0) ++ natDigits (nearestWhole m e) := if_pos h

theorem numberChars_of_not_snaps (h : ¬ Snaps m e) : numberChars negative m e =
    trimPlaces (signChars negative ++ placePoint 3 (scaledNearest 3 m e)) := if_neg h

/-- **The digits that are written, and their value.** -/
theorem exists_figure_numberChars : ∃ f : Figure, IsShort f ∧
    numberChars negative m e = f.chars ∧
      f.value = (if negative then -1 else 1) * writtenValue m e := by
  by_cases hs : Snaps m e
  · rw [numberChars_of_snaps negative m e hs, writtenValue_of_snaps hs]
    obtain ⟨f, hshort, hchars, hvalue⟩ :=
      exists_figure_whole (negative && nearestWhole m e != 0) (nearestWhole m e)
    refine ⟨f, hshort, hchars.symm, hvalue.trans ?_⟩
    -- a zero is written without its sign
    by_cases hzero : nearestWhole m e = 0 <;> simp [hzero]
  · rw [numberChars_of_not_snaps negative m e hs, writtenValue_of_not_snaps hs]
    obtain ⟨f, hshort, hchars, hvalue⟩ := exists_figure_places negative (scaledNearest 3 m e)
    exact ⟨f, hshort, hchars.symm, hvalue⟩

end Figures

/-! ### Doubles -/

section Doubles

variable {x y : Float}

/-- The value of the text of a double. -/
def written (x : Float) : ℚ :=
  match ofFloat x with
  | .finite negative m e => (if negative then -1 else 1) * writtenValue m e
  | _ => 0

theorem exists_figure_number? (h : x.isFinite) :
    ∃ f : Figure, IsShort f ∧ number? x = .ok f.text ∧ f.value = written x := by
  obtain ⟨negative, m, e, hx, -⟩ := ofFloat_of_isFinite h
  obtain ⟨f, hshort, hchars, hvalue⟩ := exists_figure_numberChars negative m e
  refine ⟨f, hshort, ?_, ?_⟩
  · rw [number?, writeFault?_eq_none_iff.mpr h, number, hx, Figure.text, ← hchars]
    rfl
  · rw [written, hx, hvalue]

theorem written_near (h : x.isFinite) : ∃ n : ℤ, Font.wholeOf (.ofFloat x) = .ok n ∧
    |written x - doubleValue x| ≤ max 0.0005 (1.001e-9 * max |doubleValue x| |(n : ℚ)|) := by
  obtain ⟨negative, m, e, hx, hvalue⟩ := ofFloat_of_isFinite h
  have hdouble := isDouble_ofFloat x
  rw [hx] at hdouble
  have hnear := writtenValue_near (m := m) (e := e) hdouble
  refine ⟨if negative then -(nearestWhole m e : ℤ) else nearestWhole m e, by rw [hx]; rfl, ?_⟩
  have hdistance : |written x - doubleValue x| = |writtenValue m e - m * 2 ^ e| := by
    rw [written, hx, hvalue]
    dsimp only
    rw [← mul_sub, abs_mul]
    cases negative <;> simp
  have hsize : max |doubleValue x|
      |((if negative then -(nearestWhole m e : ℤ) else nearestWhole m e : ℤ) : ℚ)| = size m e := by
    rw [hvalue]
    cases negative <;> simp [size, abs_mul]
  rwa [hdistance, hsize]

theorem written_mono (hx : x.isFinite) (hy : y.isFinite) (hle : doubleValue x ≤ doubleValue y) :
    written x ≤ written y := by
  obtain ⟨negative, m, e, hx', hvalue⟩ := ofFloat_of_isFinite hx
  obtain ⟨negative', k, f, hy', hvalue'⟩ := ofFloat_of_isFinite hy
  have hdouble := isDouble_ofFloat x
  have hdouble' := isDouble_ofFloat y
  rw [hx'] at hdouble
  rw [hy'] at hdouble'
  rw [written, written, hx', hy']
  rw [hvalue, hvalue'] at hle
  cases negative <;> cases negative'
  · simpa using writtenValue_mono hdouble hdouble' (by simpa using hle)
  · -- with a minus before the larger one both are zero
    have hpos := mul_zpow_nonneg m e
    have hpos' := mul_zpow_nonneg k f
    simp only [Bool.false_eq_true, if_false, if_true, one_mul, neg_one_mul] at hle ⊢
    rw [writtenValue_of_eq_zero (le_antisymm (by linarith) hpos),
      writtenValue_of_eq_zero (le_antisymm (by linarith) hpos'), neg_zero]
  · have hnonneg := writtenValue_nonneg m e
    have hnonneg' := writtenValue_nonneg k f
    simp only [Bool.false_eq_true, if_false, if_true, one_mul, neg_one_mul]
    linarith
  · simpa using writtenValue_mono hdouble' hdouble (by simpa using hle)

/-- **How numbers are written.**  The text of a finite double is a short figure.  Its value is within
half a thousandth of the double, or within a billionth or so of the larger one of the double and the
whole number nearest to it.  The value for a larger double is no smaller. -/
theorem number?_near_ordered (hx : x.isFinite) : ∃ f : Figure, number? x = .ok f.text ∧ IsShort f ∧
    (∃ n : ℤ, Font.wholeOf (.ofFloat x) = .ok n ∧
      |f.value - doubleValue x| ≤ max 0.0005 (1.001e-9 * max |doubleValue x| |(n : ℚ)|)) ∧
    ∀ (y : Float) (g : Figure), y.isFinite → number? y = .ok g.text →
      doubleValue x ≤ doubleValue y → f.value ≤ g.value := by
  obtain ⟨f, hshort, htext, hvalue⟩ := exists_figure_number? hx
  obtain ⟨n, hwhole, hnear⟩ := written_near hx
  refine ⟨f, htext, hshort, ⟨n, hwhole, by rwa [hvalue]⟩, fun y g hy hread hle => ?_⟩
  obtain ⟨g', -, htext', hvalue'⟩ := exists_figure_number? hy
  -- the text gives the value
  have hsame : some g.value = some g'.value := by
    rw [← readNumber?_figure, ← readNumber?_figure, Except.ok.inj (hread.symm.trans htext')]
  rw [hvalue, Option.some.inj hsame, hvalue']
  exact written_mono hx hy hle

/-- A number that is written as a whole one, below a number that is not. -/
theorem number?_near_ordered_million : (1234567.0004 : Float).isFinite ∧
    ∃ f : Figure, number? 1234567.0004 = .ok f.text ∧ IsShort f ∧ f.text = "1234567" ∧
      ∀ g : Figure, g.text = "1234567.004" → f.value ≤ g.value := by
  have hfinite : (1234567.0004 : Float).isFinite := rfl
  have hfinite' : (1234567.004 : Float).isFinite := rfl
  have hwhole : number? 1234567.0004 = .ok "1234567" := by decide +kernel
  have hplaces : number? 1234567.004 = .ok "1234567.004" := by decide +kernel
  have hle : doubleValue 1234567.0004 ≤ doubleValue 1234567.004 := by decide +kernel
  obtain ⟨f, htext, hshort, -, hordered⟩ := number?_near_ordered hfinite
  exact ⟨hfinite, f, htext, hshort, Except.ok.inj (htext.symm.trans hwhole), fun g hg =>
    hordered _ g hfinite' (hg ▸ hplaces) hle⟩

end Doubles

end Scrawl.Svg
