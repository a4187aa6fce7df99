import Scrawl.Proofs.Decimal.Doubles
import Scrawl.Proofs.Decimal.Figures
import Scrawl.Proofs.Description.Attributes

/-!
# Scrawl.Proofs.Decimal.Fixed — numbers with fixed places, read again

* `digitsValue_append`: the value of digits by their parts.
* `read?_fixedChars`: the digits with a point in them are the number rounded to the places.
* `ofRatio_finite`: a quotient well below the largest double is rounded to a finite number.
* `isGap_fixedChars`: a finite number that is not negative, nor too large, is written as one.
-/

namespace Scrawl.Decimal

/-! ### Digits -/

theorem digitsValue_append (cs ds : List Char) :
    digitsValue (cs ++ ds) = 10 ^ ds.length * digitsValue cs + digitsValue ds :=
  (Nat.ofDigitChars_append 0).trans Nat.ofDigitChars_eq_ofDigitChars_zero

theorem digitsValue_zeros (k : ℕ) : digitsValue (List.replicate k '0') = 0 :=
  Nat.ofDigitChars_replicate_zero.trans (Nat.mul_zero _)

section Point

variable {places : ℕ} (n : ℕ)

/-- The digits behind the point. -/
def partDigits (places n : ℕ) : List Char :=
  List.replicate (places - (natDigits (n % 10 ^ places)).length) '0' ++ natDigits (n % 10 ^ places)

theorem placePoint_eq (h : places ≠ 0) :
    placePoint places n = natDigits (n / 10 ^ places) ++ '.' :: partDigits places n := by
  rw [placePoint, if_neg (by simpa using h)]
  rfl

theorem isDigit_of_mem_partDigits {c : Char} (h : c ∈ partDigits places n) : c.isDigit := by
  rcases List.mem_append.mp h with h | h
  · obtain rfl := List.eq_of_mem_replicate h
    rfl
  · exact isDigit_of_mem_natDigits h

theorem length_partDigits (h : places ≠ 0) : (partDigits places n).length = places := by
  have hlt : n % 10 ^ places < 10 ^ places := Nat.mod_lt _ (by positivity)
  have hle : (natDigits (n % 10 ^ places)).length ≤ places :=
    (Nat.length_toDigits_le_iff (by decide) (Nat.pos_of_ne_zero h)).mpr hlt
  rw [partDigits, List.length_append, List.length_replicate, Nat.sub_add_cancel hle]

/-- The digits around the point make up the number. -/
theorem digitsValue_placePoint (h : places ≠ 0) :
    digitsValue (natDigits (n / 10 ^ places) ++ partDigits places n) = n := by
  rw [digitsValue_append, length_partDigits n h, digitsValue_natDigits, partDigits,
    digitsValue_append, digitsValue_zeros, digitsValue_natDigits, Nat.mul_zero, Nat.zero_add,
    Nat.div_add_mod]

end Point

section Reading

variable {negative : Bool} {places m : ℕ} {e : ℤ}

theorem fixedChars_eq (h : places ≠ 0) : fixedChars places (.finite negative m e) =
    signChars negative ++ (natDigits (scaledNearest places m e / 10 ^ places) ++
      '.' :: partDigits places (scaledNearest places m e)) := by
  rw [← placePoint_eq _ h]
  rfl

theorem isFigureChar_of_mem_fixedChars (h : places ≠ 0) {c : Char}
    (hc : c ∈ fixedChars places (.finite negative m e)) : IsFigureChar c := by
  simp only [fixedChars_eq h, List.mem_append, List.mem_cons] at hc
  rcases hc with hc | hc | rfl | hc
  · cases negative
    · exact absurd hc List.not_mem_nil
    · exact Or.inr (List.mem_singleton.mp hc ▸ by decide)
  · exact Or.inl (isDigit_of_mem_natDigits hc)
  · exact Or.inr (by decide)
  · exact Or.inl (isDigit_of_mem_partDigits _ hc)

/-- **A number with fixed places is read as the number rounded to them.** -/
theorem read?_fixedChars (h : places ≠ 0) :
    Numeral.read? (String.ofList (fixedChars places (.finite negative m e))) =
      some (.decimal negative (scaledNearest places m e) (-(places : ℤ))) := by
  set n := scaledNearest places m e
  have hfigure : ∀ c ∈ fixedChars places (.finite negative m e), IsFigureChar c :=
    fun _ => isFigureChar_of_mem_fixedChars h
  have hne : natDigits (n / 10 ^ places) ≠ [] := Nat.toDigits_ne_nil
  have hhead : ∀ c ∈ (natDigits (n / 10 ^ places) ++ '.' :: partDigits places n).head?,
      c.isDigit ∨ c = '.' := by
    intro c hc
    rw [List.head?_append_of_ne_nil _ hne] at hc
    exact Or.inl (isDigit_of_mem_natDigits (List.mem_of_mem_head? hc))
  have hsign : takeSign (fixedChars places (.finite negative m e)) =
      (negative, natDigits (n / 10 ^ places) ++ '.' :: (partDigits places n ++ [])) := by
    rw [fixedChars_eq h, List.append_nil]
    cases negative
    · exact takeSign_chars .unsigned hhead
    · exact takeSign_chars .minus hhead
  rw [Numeral.read?, plainNumeral_figure hfigure,
    dropUnderscores_figure fun c hc => (hfigure c hc).ne_underscore, Option.bind_some, hsign]
  have hpart : ∀ c ∈ partDigits places n, c.isDigit := fun _ => isDigit_of_mem_partDigits n
  have hends : Text.Ends Char.isDigit [] := by simp [Text.Ends]
  have hread := Numeral.readUnsigned?_point negative (fun _ => isDigit_of_mem_natDigits) hpart
    (List.append_ne_nil_of_left_ne_nil hne _) hends
  rw [digitsValue_placePoint n h, length_partDigits n h] at hread
  exact hread.trans (by simp [Numeral.readExponent?])

end Reading

/-! ### The range of doubles -/

/-- A quotient below the largest double by a power of two or so is rounded to a finite number. -/
theorem Binary.ofRatio_finite {num den : ℕ} (negative : Bool) (h : num.log2 ≤ den.log2 + 1022) :
    ∃ m e, ofRatio negative num den = finite negative m e := by
  by_cases hnum : num = 0
  · exact ⟨0, minExponent, by simp [ofRatio, hnum]⟩
  · have hlow : lowPlace num den ≤ 969 := by
      rw [lowPlace, minExponent]
      omega
    have hplace : place num den ≤ lowPlace num den + 1 := by
      unfold place
      split_ifs <;> omega
    rw [ofRatio_eq negative hnum]
    dsimp only
    rw [if_neg]
    · exact ⟨_, _, rfl⟩
    · rw [maxExponent]
      split_ifs <;> dsimp only <;> omega

theorem log2_lt_of_le_mul {n d k : ℕ} (h : n ≤ d * 2 ^ k) : n.log2 < d.log2 + 1 + k := by
  by_cases hn : n = 0
  · simp [hn]
  refine (Nat.log2_lt hn).mpr (h.trans_lt ?_)
  rw [Nat.pow_add]
  exact Nat.mul_lt_mul_of_pos_right Nat.lt_log2_self (Nat.two_pow_pos k)

/-- The number of a numeral that is not too large is finite. -/
theorem toBinary_finite {places n k : ℕ} (negative : Bool) (h : n ≤ 10 ^ places * 2 ^ k)
    (hk : k ≤ 1021) :
    ∃ m e, (Numeral.decimal negative n (-(places : ℤ))).toBinary = .finite negative m e := by
  have hlength : (natDigits n).length ≤ places + (k / 3 + 1) := by
    have hpow : 2 ^ k < 10 ^ (k / 3 + 1) :=
      calc 2 ^ k < 2 ^ (3 * (k / 3 + 1)) := Nat.pow_lt_pow_right (by decide) (by omega)
        _ = (2 ^ 3) ^ (k / 3 + 1) := Nat.pow_mul ..
        _ < 10 ^ (k / 3 + 1) := Nat.pow_lt_pow_left (by decide) (Nat.succ_ne_zero _)
    refine (Nat.length_toDigits_le_iff (by decide) (by omega)).mpr (h.trans_lt ?_)
    rw [Nat.pow_add]
    exact Nat.mul_lt_mul_of_pos_left hpow (by positivity)
  have hlog := log2_lt_of_le_mul h
  simp only [Numeral.toBinary]
  split_ifs with hzero hlarge
  · exact ⟨0, Binary.minExponent, rfl⟩
  · omega
  · have hratio : ∃ m e, Binary.ofRatio negative n (10 ^ places) = .finite negative m e :=
      Binary.ofRatio_finite negative (by omega)
    simpa [pow10] using hratio

theorem scaledNearest_le {places m j k : ℕ} {e : ℤ} (hm : m < 2 ^ j) (he : e ≤ k) :
    scaledNearest places m e ≤ 10 ^ places * 2 ^ (j + k + 1) := by
  have hnum : m * 10 ^ places * 2 ^ e.toNat ≤ 10 ^ places * 2 ^ (j + k) :=
    calc m * 10 ^ places * 2 ^ e.toNat ≤ 2 ^ j * 10 ^ places * 2 ^ k :=
          Nat.mul_le_mul (Nat.mul_le_mul_right _ hm.le)
            (Nat.pow_le_pow_right (by decide) (by omega))
      _ = 10 ^ places * 2 ^ (j + k) := by
          rw [Nat.mul_comm (2 ^ j), Nat.mul_assoc, Nat.pow_add]
  have hpos : 0 < 10 ^ places * 2 ^ (j + k) := by positivity
  calc scaledNearest places m e
      ≤ m * 10 ^ places * 2 ^ e.toNat / 2 ^ (-e).toNat + 1 := Binary.divNearest_bounds.2
    _ ≤ 10 ^ places * 2 ^ (j + k) + 1 := by
        gcongr
        exact (Nat.div_le_self _ _).trans hnum
    _ ≤ 10 ^ places * 2 ^ (j + k + 1) := by
        rw [Nat.pow_succ, ← Nat.mul_assoc]
        omega

/-- **A finite number that is not negative, nor too large, is written as a gap.** -/
theorem isGap_fixedChars {places m : ℕ} {e : ℤ} (hplaces : places ≠ 0) (hm : m < 2 ^ 53)
    (he : e ≤ 967) :
    Description.IsGap (String.ofList (fixedChars places (.finite false m e))) := by
  obtain ⟨k, f, hfinite⟩ := toBinary_finite false (scaledNearest_le hm he) (by decide)
  refine ⟨_, read?_fixedChars hplaces, ?_⟩
  rw [hfinite]
  exact Binary.value?_nonneg.mpr (by simp)

end Scrawl.Decimal
