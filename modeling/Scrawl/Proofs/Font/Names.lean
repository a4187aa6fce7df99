import Mathlib
import Scrawl.Font.Search

/-!
# Scrawl.Proofs.Font.Names — names of fonts in lower case and normalized

A character and its lower-case form both count in a font name or both do not, with one exception:
the dotted capital I becomes two characters, of which only the first counts.  So two families that
agree in lower case agree in their normalized names, unless one of them has a dotted capital I where
the other has a plain i with a dot above.

* `isNameCharacter_lowerChar`: what counts in lower case.
* `filter_lowerFrom`: the characters of the lower-case form that count.
* `toList_normalize`: the characters of a normalized name.
* `normalize_eq_iff`: which families with one lower-case form have one normalized name.
-/

namespace Scrawl.Font

open Text

/-! ### Characters that count -/

/-- The blocks of the numbers of the characters that count in a font name. -/
def nameBlocks : List (ℕ × ℕ) :=
  [(0x30, 0x39), (0x41, 0x5A), (0x61, 0x7A), (0x130, 0x131), (0x17F, 0x17F), (0x212A, 0x212A)]

theorem isNameCharacter_iff {c : Char} :
    isNameCharacter c ↔ ∃ b ∈ nameBlocks, b.1 ≤ c.toNat ∧ c.toNat ≤ b.2 := by
  have hchar : ∀ d : Char, c = d ↔ c.toNat = d.toNat := fun d => Char.toNat_inj.symm
  have hval : c.val.toNat = c.toNat := rfl
  simp only [isNameCharacter, Char.isAlphanum, Char.isAlpha, Char.isUpper, Char.isLower,
    Char.isDigit, UInt32.le_iff_toNat_le, ge_iff_le, Bool.or_eq_true, Bool.and_eq_true,
    decide_eq_true_eq, beq_iff_eq, hchar, hval, nameBlocks, List.exists_mem_cons_iff,
    List.not_mem_nil, false_and, exists_false, or_false, Char.reduceVal, Char.reduceToNat,
    UInt32.reduceToNat]
  omega

/-- Every run of capitals but those of ASCII and the sign for Kelvin is apart from the characters
that count, and so are their forms. -/
theorem lowerRuns_apart : ∀ r ∈ lowerRuns.toList,
    (r.first = 0x41 ∧ r.last = 0x5A ∧ r.shift = 32) ∨
    (r.first = 0x212A ∧ r.last = 0x212A ∧ r.shift = -8383) ∨
    ∀ b ∈ nameBlocks, (r.last < b.1 ∨ b.2 < r.first) ∧
      ((r.last + r.shift : ℤ) < b.1 ∨ (b.2 : ℤ) < r.first + r.shift) := by
  decide +kernel

theorem run_of_find? {c : Char} {r : CaseRun} (h : lowerRuns.find? (·.holds c.toNat) = some r) :
    r ∈ lowerRuns.toList ∧ r.first ≤ c.toNat ∧ c.toNat ≤ r.last := by
  have hholds := Array.find?_some h
  simp only [CaseRun.holds, Bool.and_eq_true, decide_eq_true_eq] at hholds
  exact ⟨Array.mem_toList_iff.mpr (Array.mem_of_find?_eq_some h), hholds.1⟩

/-- **A character counts exactly if its lower-case form does.** -/
theorem isNameCharacter_lowerChar (c : Char) :
    isNameCharacter (lowerChar c) ↔ isNameCharacter c := by
  have hpositive : ∀ b ∈ nameBlocks, 0 < b.1 := by decide
  unfold lowerChar
  cases hfind : lowerRuns.find? (·.holds c.toNat) with
  | none => rfl
  | some r =>
    obtain ⟨hmem, hlow, hhigh⟩ := run_of_find? hfind
    have hform := Char.toNat_ofNat (c.toNat + r.shift).toNat
    dsimp only
    rw [isNameCharacter_iff, isNameCharacter_iff]
    rcases lowerRuns_apart r hmem with
      ⟨hfirst, hlast, hshift⟩ | ⟨hfirst, hlast, hshift⟩ | hapart
    · rw [if_pos (Or.inl (by omega))] at hform
      exact iff_of_true ⟨(0x61, 0x7A), by decide, by omega, by omega⟩
        ⟨(0x41, 0x5A), by decide, by omega, by omega⟩
    · rw [if_pos (Or.inl (by omega))] at hform
      exact iff_of_true ⟨(0x61, 0x7A), by decide, by omega, by omega⟩
        ⟨(0x212A, 0x212A), by decide, by omega, by omega⟩
    · -- a number that is none of a character stands for the zero character, which does not count
      have hform : (Char.ofNat (c.toNat + r.shift).toNat).toNat = (c.toNat + r.shift).toNat ∨
          (Char.ofNat (c.toNat + r.shift).toNat).toNat = 0 := by
        rw [hform]
        split_ifs
        · exact Or.inl rfl
        · exact Or.inr rfl
      refine iff_of_false ?_ ?_
      · rintro ⟨b, hb, hinside⟩
        have hfirst := hpositive b hb
        obtain ⟨-, hapart⟩ := hapart b hb
        omega
      · rintro ⟨b, hb, hinside⟩
        obtain ⟨hapart, -⟩ := hapart b hb
        omega

/-! ### What characters become -/

/-- The first character of the lower-case form, for characters that count. -/
def leading (c : Char) : Char := if c = '\u0130' then 'i' else lowerChar c

/-- The lower-case form: the dotted capital I keeps its dot as a character of its own. -/
def forms (c : Char) : List Char :=
  leading c :: if c = '\u0130' then ['\u0307'] else []

theorem isNameCharacter_leading {c : Char} (h : isNameCharacter c) :
    isNameCharacter (leading c) := by
  unfold leading
  split_ifs
  · decide
  · exact (isNameCharacter_lowerChar c).mpr h

theorem filter_forms (c : Char) :
    (forms c).filter isNameCharacter = if isNameCharacter c then [leading c] else [] := by
  unfold forms leading
  by_cases hdotted : c = '\u0130'
  · subst hdotted
    decide
  · rw [if_neg hdotted, if_neg hdotted, List.filter_singleton,
      Bool.eq_iff_iff.mpr (isNameCharacter_lowerChar c)]
    cases isNameCharacter c <;> rfl

/-- The pieces of a lower-case form.  Only the capital sigma depends on what is around it. -/
theorem lowerFrom_cons {c : Char} (h : c ≠ '\u03A3') (before rest : List Char) :
    lowerFrom before (c :: rest) = forms c ++ lowerFrom (c :: before) rest := by
  rw [lowerFrom, if_neg (by simpa using h)]
  unfold forms leading
  by_cases hdotted : c = '\u0130'
  · rw [if_pos (by simpa using hdotted), if_pos hdotted, if_pos hdotted]
  · rw [if_neg (by simpa using hdotted), if_neg hdotted, if_neg hdotted]

theorem lowerFrom_eq_flatMap {cs : List Char} (h : '\u03A3' ∉ cs) (before : List Char) :
    lowerFrom before cs = cs.flatMap forms := by
  induction cs generalizing before with
  | nil => rfl
  | cons c cs ih =>
    obtain ⟨hc, hcs⟩ := not_or.mp (mt List.mem_cons.mpr h)
    rw [lowerFrom_cons (Ne.symm hc), ih hcs, List.flatMap_cons]

/-- **What counts in the lower-case form is what counts in the text, in lower case.** -/
theorem filter_lowerFrom (before cs : List Char) :
    (lowerFrom before cs).filter isNameCharacter = (cs.filter isNameCharacter).map leading := by
  induction cs generalizing before with
  | nil => rfl
  | cons c cs ih =>
    by_cases hsigma : c = '\u03A3'
    · subst hsigma
      -- neither the capital nor one of its two small letters counts
      have hsmall : ∀ final : Bool,
          ¬ isNameCharacter (if final then '\u03C2' else '\u03C3') := by decide
      rw [lowerFrom, if_pos (by decide), List.filter_append, ih,
        List.filter_cons_of_neg (hsmall _), List.filter_cons_of_neg (by decide)]
      rfl
    · rw [lowerFrom_cons hsigma, List.filter_append, filter_forms, ih, List.filter_cons]
      split_ifs <;> rfl

/-! ### Normalized names -/

section Names

variable {a b : String}

/-- The characters of a family that count. -/
def nameCharacters (family : String) : List Char := family.toList.filter isNameCharacter

/-- Which of the characters that count are the dotted capital I. -/
def dotted (family : String) : List Bool := (nameCharacters family).map (· == '\u0130')

theorem isNameCharacter_of_mem {family : String} {c : Char} (h : c ∈ nameCharacters family) :
    isNameCharacter c :=
  (List.mem_filter.mp h).2

theorem toList_normalize (family : String) :
    (normalize family).toList = (nameCharacters family).flatMap forms := by
  have hsigma : '\u03A3' ∉ nameCharacters family := fun h =>
    absurd (isNameCharacter_of_mem h) (by decide)
  rw [normalize, lower, String.toList_ofList, String.toList_ofList]
  exact lowerFrom_eq_flatMap hsigma []

/-- Nothing is left of a name exactly if nothing in it counts. -/
theorem normalize_eq_empty {family : String} :
    normalize family = "" ↔ nameCharacters family = [] := by
  rw [← String.toList_eq_nil_iff, toList_normalize, List.flatMap_eq_nil_iff]
  constructor
  · intro h
    refine List.eq_nil_iff_forall_not_mem.mpr fun c hc => List.cons_ne_nil _ _ (h c hc)
  · intro h c hc
    rw [h] at hc
    exact absurd hc List.not_mem_nil

/-- A name is not changed by what does not count in it. -/
theorem normalize_nameCharacters (family : String) :
    normalize (String.ofList (nameCharacters family)) = normalize family := by
  rw [normalize, normalize, String.toList_ofList, nameCharacters, List.filter_filter]
  simp only [Bool.and_self]

/-- Families with one lower-case form have the same characters that count, up to their case. -/
theorem map_leading_eq (h : lower a = lower b) :
    (nameCharacters a).map leading = (nameCharacters b).map leading := by
  have hfrom : lowerFrom [] a.toList = lowerFrom [] b.toList := String.ofList_injective h
  rw [nameCharacters, nameCharacters, ← filter_lowerFrom [], ← filter_lowerFrom [], hfrom]

/-- The dot above counts for nothing at the head of what characters that count become. -/
theorem flatMap_forms_ne_dot {cs rest : List Char} (h : ∀ c ∈ cs, isNameCharacter c) :
    cs.flatMap forms ≠ '\u0307' :: rest := by
  intro heq
  cases cs with
  | nil => exact absurd heq (List.cons_ne_nil _ _).symm
  | cons c cs =>
    rw [List.flatMap_cons, forms, List.cons_append] at heq
    have hcounts := isNameCharacter_leading (h c List.mem_cons_self)
    rw [(List.cons.inj heq).1] at hcounts
    exact absurd hcounts (by decide)

/-- Characters that count and have the same first lower-case characters become the same exactly if
the dotted capital I stands in the same places. -/
theorem flatMap_forms_eq_iff {cs ds : List Char} (hcs : ∀ c ∈ cs, isNameCharacter c)
    (hds : ∀ d ∈ ds, isNameCharacter d) (h : cs.map leading = ds.map leading) :
    cs.flatMap forms = ds.flatMap forms ↔ cs.map (· == '\u0130') = ds.map (· == '\u0130') := by
  induction cs generalizing ds with
  | nil =>
    obtain rfl := List.map_eq_nil_iff.mp h.symm
    exact iff_of_true rfl rfl
  | cons c cs ih =>
    obtain ⟨d, ds, rfl, hd, hrest⟩ := List.map_eq_cons_iff.mp h.symm
    obtain ⟨-, hcs⟩ := List.forall_mem_cons.mp hcs
    obtain ⟨-, hds⟩ := List.forall_mem_cons.mp hds
    have ih := ih hcs hds hrest.symm
    rw [List.flatMap_cons, List.flatMap_cons, List.map_cons, List.map_cons, forms, forms, hd,
      List.cons_append, List.cons_append, List.cons_inj_right, List.cons_eq_cons, ← ih]
    by_cases hc : c = '\u0130' <;> by_cases hd : d = '\u0130'
    · simp [hc, hd]
    · -- the dot is left over on the one side
      rw [if_pos hc, if_neg hd]
      exact iff_of_false (flatMap_forms_ne_dot hds).symm fun h => absurd h.1 (by simp [hc, hd])
    · rw [if_neg hc, if_pos hd]
      exact iff_of_false (flatMap_forms_ne_dot hcs) fun h => absurd h.1 (by simp [hc, hd])
    · simp [hc, hd]

/-- **Families with one lower-case form have one normalized name exactly if the dotted capital I
stands in the same places.** -/
theorem normalize_eq_iff (h : lower a = lower b) :
    normalize a = normalize b ↔ dotted a = dotted b := by
  rw [← String.toList_inj, toList_normalize, toList_normalize]
  exact flatMap_forms_eq_iff (fun _ => isNameCharacter_of_mem) (fun _ => isNameCharacter_of_mem)
    (map_leading_eq h)

/-- Where there is no dotted capital I, one lower-case form is enough. -/
theorem dotted_eq_of_not_mem (h : lower a = lower b) (ha : '\u0130' ∉ a.toList)
    (hb : '\u0130' ∉ b.toList) : dotted a = dotted b := by
  have hplain : ∀ {family : String}, '\u0130' ∉ family.toList →
      dotted family = List.replicate (nameCharacters family).length false := by
    intro family hfamily
    refine List.eq_replicate_iff.mpr ⟨List.length_map _, fun d hd => ?_⟩
    obtain ⟨c, hc, rfl⟩ := List.mem_map.mp hd
    exact beq_eq_false_iff_ne.mpr fun hdot => hfamily (hdot ▸ (List.mem_filter.mp hc).1)
  have hlength : (nameCharacters a).length = (nameCharacters b).length := by
    simpa using congrArg List.length (map_leading_eq h)
  rw [hplain ha, hplain hb, hlength]

end Names

end Scrawl.Font
