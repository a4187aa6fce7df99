import Mathlib
import Scrawl.Proofs.Text.Lines

/-!
# Scrawl.Proofs.Decimal.Figures — decimal numbers as they are written

A figure is a sign, ASCII digits with an optional point among them, and an optional exponent.  It
stands for a rational number, and reading its text gives that number.

* `readUnsigned?_whole`, `readUnsigned?_point`: what is read from digits, with and without a point.
* `read?_text`, `readNumber?_figure`: a figure is read as the number it stands for.
* `readInt?_natDigits`: a natural number is read from its digits.
-/

namespace Scrawl.Decimal

/-- Numerals stand for rational numbers, unless they name an infinity or no number. -/
instance : OfNumeral ℚ where
  ofNumeral? n :=
    match n with
    | .decimal negative digits place =>
      some ((if negative then -(digits : ℚ) else digits) * (10 : ℚ) ^ place)
    | _ => none

/-! ### Characters of figures -/

/-- The characters besides digits that figures are written with. -/
def figureMarks : List Char := ['+', '-', '.', 'e', 'E']

/-- Whether figures are written with the character. -/
def IsFigureChar (c : Char) : Prop := c.isDigit ∨ c ∈ figureMarks

section Chars

variable {c : Char} {cs : List Char}

theorem isDigit_range (h : c.isDigit) : 48 ≤ c.toNat ∧ c.toNat ≤ 57 := by
  simpa [Char.isDigit, UInt32.le_iff_toNat_le] using h

theorem toLower_of_isDigit (h : c.isDigit) : c.toLower = c := by
  have := isDigit_range h
  refine dif_neg fun hupper => ?_
  simp only [ge_iff_le, UInt32.le_iff_toNat_le] at hupper
  exact absurd hupper.1 (by change ¬ 65 ≤ c.toNat; omega)

theorem IsFigureChar.not_blank (h : IsFigureChar c) : Text.isBlank c = false := by
  rcases h with h | h
  · have := isDigit_range h
    simp only [Text.isBlank, Bool.or_eq_false_iff, Bool.and_eq_false_iff, decide_eq_false_iff_not,
      beq_eq_false_iff_ne]
    omega
  · fin_cases h <;> decide

theorem plainDigit_of_isDigit (h : c.isDigit) : plainDigit c = c := by
  obtain ⟨hlow, hhigh⟩ := isDigit_range h
  have hzero : (48 ≤ c.toNat && c.toNat < 48 + 10) = true := by
    simp only [Bool.and_eq_true, decide_eq_true_eq]
    omega
  have hvalue : Text.digitValue? c = some (c.toNat - 48) :=
    congrArg (Option.map (c.toNat - ·)) (List.find?_cons_of_pos hzero)
  have hsum : 48 + (c.toNat - 48) = c.toNat := by omega
  rw [plainDigit, hvalue]
  simp only [hsum, Char.ofNat_toNat]

theorem IsFigureChar.plainDigit_eq (h : IsFigureChar c) : plainDigit c = c := by
  rcases h with h | h
  · exact plainDigit_of_isDigit h
  · fin_cases h <;> decide

theorem IsFigureChar.ne_underscore (h : IsFigureChar c) : c ≠ '_' := by
  rcases h with h | h
  · rintro rfl
    cases h
  · fin_cases h <;> decide

theorem plainNumeral_figure (h : ∀ c ∈ cs, IsFigureChar c) :
    plainNumeral (String.ofList cs) = cs := by
  have hblank : ∀ c ∈ cs, isNumeralBlank c = false := fun c hc => by
    rw [isNumeralBlank, (h c hc).not_blank, Bool.false_and]
  rw [plainNumeral, String.toList_ofList, Text.stripChars_of_ends
    (fun c hc => hblank c (List.mem_of_mem_head? hc))
    fun c hc => hblank c (List.mem_of_mem_getLast? hc)]
  exact (List.map_congr_left fun c hc => (h c hc).plainDigit_eq).trans (List.map_id cs)

theorem dropUnderscores_figure (h : ∀ c ∈ cs, c ≠ '_') (afterDigit : Bool) :
    dropUnderscores afterDigit cs = some cs := by
  induction cs generalizing afterDigit with
  | nil => rfl
  | cons c cs ih =>
    obtain ⟨hc, hcs⟩ := List.forall_mem_cons.mp h
    rw [dropUnderscores.eq_def]
    split
    · cases ‹c :: cs = []›
    · next heq =>
      cases heq
      exact absurd rfl hc
    · next heq =>
      cases heq
      simp [hc, ih hcs]

end Chars

/-! ### What is read from digits -/

namespace Numeral

variable {whole part tail : List Char} (negative : Bool)

/-- A number that begins with a digit or a point is none of the words. -/
theorem toLower_ne_of_head {c : Char} (h : c.isDigit ∨ c = '.') :
    c.toLower ≠ 'i' ∧ c.toLower ≠ 'n' := by
  rcases h with h | rfl
  · rw [toLower_of_isDigit h]
    constructor <;> rintro rfl <;> cases h
  · decide

theorem readUnsigned?_whole (hw : ∀ c ∈ whole, c.isDigit) (hne : whole ≠ [])
    (ht : Text.Ends Char.isDigit tail) (hpoint : ∀ cs, tail ≠ '.' :: cs) :
    readUnsigned? negative (whole ++ tail) =
      (readExponent? tail).map fun e => .decimal negative (digitsValue whole) e := by
  obtain ⟨htake, hdrop⟩ := Text.span_append hw ht
  obtain ⟨c, cs, rfl⟩ := List.exists_cons_of_ne_nil hne
  obtain ⟨hi, hn⟩ := toLower_ne_of_head (Or.inl (hw c List.mem_cons_self))
  rw [List.cons_append] at htake hdrop ⊢
  simp [readUnsigned?, htake, hdrop, hi, hn]

theorem readUnsigned?_point (hw : ∀ c ∈ whole, c.isDigit) (hp : ∀ c ∈ part, c.isDigit)
    (hne : whole ++ part ≠ []) (ht : Text.Ends Char.isDigit tail) :
    readUnsigned? negative (whole ++ '.' :: (part ++ tail)) =
      (readExponent? tail).map fun e =>
        .decimal negative (digitsValue (whole ++ part)) (e - part.length) := by
  have hpoint : Text.Ends Char.isDigit ('.' :: (part ++ tail)) := by simp [Text.Ends]
  obtain ⟨htake, hdrop⟩ := Text.span_append hw hpoint
  obtain ⟨htake', hdrop'⟩ := Text.span_append hp ht
  obtain ⟨c, cs, hcs, hc⟩ : ∃ c cs, whole ++ '.' :: (part ++ tail) = c :: cs ∧
      (c.isDigit ∨ c = '.') := by
    cases whole with
    | nil => exact ⟨_, _, rfl, Or.inr rfl⟩
    | cons d ds => exact ⟨_, _, rfl, Or.inl (hw d List.mem_cons_self)⟩
  have hempty : (whole.isEmpty && part.isEmpty) = false := by
    simpa using hne
  obtain ⟨hi, hn⟩ := toLower_ne_of_head hc
  rw [hcs] at htake hdrop ⊢
  simp [readUnsigned?, htake, hdrop, htake', hdrop', hempty, hi, hn]

end Numeral

/-! ### Figures -/

/-- A sign as it is written. -/
inductive SignMark
  | unsigned
  | plus
  | minus
  deriving DecidableEq

namespace SignMark

/-- The characters of a sign. -/
def chars : SignMark → List Char
  | unsigned => []
  | plus => ['+']
  | minus => ['-']

/-- Whether the sign turns a number round. -/
def isMinus (s : SignMark) : Bool := s == minus

/-- A number with the sign. -/
def apply {α : Type} [Neg α] (s : SignMark) (a : α) : α := if s.isMinus then -a else a

end SignMark

/-- Digits, the first one leading. -/
abbrev Digits := List (Fin 10)

namespace Digits

/-- The characters of digits. -/
def chars (ds : Digits) : List Char := ds.map fun d : Fin 10 => Nat.digitChar d

@[simp] theorem length_chars (ds : Digits) : ds.chars.length = ds.length := List.length_map _

@[simp] theorem chars_eq_nil {ds : Digits} : ds.chars = [] ↔ ds = [] := List.map_eq_nil_iff

theorem chars_append (ds es : Digits) : chars (ds ++ es) = ds.chars ++ es.chars := List.map_append

/-- The number that digits make. -/
def value (ds : Digits) : ℕ := ds.foldl (fun n (d : Fin 10) => 10 * n + d) 0

end Digits

/-- A power of ten as it is written. -/
structure Exponent where
  /-- Whether the letter is a capital. -/
  capital : Bool := false
  sign : SignMark := .unsigned
  digits : Digits
  nonempty : digits ≠ []

namespace Exponent

/-- The characters of an exponent. -/
def chars (e : Exponent) : List Char :=
  (if e.capital then 'E' else 'e') :: (e.sign.chars ++ e.digits.chars)

/-- The exponent as a number. -/
def value (e : Exponent) : ℤ := e.sign.apply (e.digits.value : ℤ)

end Exponent

/-- A decimal number as it is written. -/
structure Figure where
  sign : SignMark := .unsigned
  whole : Digits
  /-- The digits behind the point, if there is one. -/
  part : Option Digits := none
  exponent : Option Exponent := none
  nonempty : whole ++ part.getD [] ≠ []

namespace Figure

/-- The characters behind the sign. -/
def unsigned (f : Figure) : List Char :=
  f.whole.chars ++ ((f.part.elim [] fun ds => '.' :: ds.chars) ++ f.exponent.elim [] Exponent.chars)

/-- The characters of a figure. -/
def chars (f : Figure) : List Char := f.sign.chars ++ f.unsigned

/-- A figure as text. -/
def text (f : Figure) : String := String.ofList f.chars

/-- The power of ten that the last digit stands for. -/
def place (f : Figure) : ℤ := f.exponent.elim 0 Exponent.value - (f.part.getD []).length

/-- The number that a figure stands for. -/
def value (f : Figure) : ℚ :=
  f.sign.apply (Digits.value (f.whole ++ f.part.getD []) : ℚ) * 10 ^ f.place

end Figure

section Reading

theorem isDigit_digitChar (d : Fin 10) : (Nat.digitChar d).isDigit := by
  fin_cases d <;> decide

theorem Digits.isDigit_of_mem {ds : Digits} {c : Char} (h : c ∈ ds.chars) : c.isDigit := by
  obtain ⟨d, -, rfl⟩ := List.mem_map.mp h
  exact isDigit_digitChar d

theorem digitsValue_chars (ds : Digits) : digitsValue ds.chars = ds.value := by
  have hdigit : ∀ d : Fin 10, (Nat.digitChar d).toNat - 0x30 = d := by decide
  simp only [digitsValue, Digits.chars, Digits.value, List.foldl_map, hdigit]

theorem takeSign_chars (s : SignMark) {cs : List Char} (h : ∀ c ∈ cs.head?, c.isDigit ∨ c = '.') :
    takeSign (s.chars ++ cs) = (s.isMinus, cs) := by
  cases s with
  | unsigned =>
    cases cs with
    | nil => rfl
    | cons c cs =>
      have hc := h c rfl
      rw [SignMark.chars, List.nil_append, takeSign.eq_def]
      split
      · next heq =>
        cases heq
        exact absurd hc (by decide)
      · next heq =>
        cases heq
        exact absurd hc (by decide)
      · rfl
  | plus => rfl
  | minus => rfl

theorem readExponent?_chars (e : Exponent) :
    Numeral.readExponent? e.chars = some e.value := by
  have hsign : takeSign (e.sign.chars ++ e.digits.chars) = (e.sign.isMinus, e.digits.chars) :=
    takeSign_chars _ fun c hc => Or.inl (Digits.isDigit_of_mem (List.mem_of_mem_head? hc))
  have hne : e.digits.chars ≠ [] := mt Digits.chars_eq_nil.mp e.nonempty
  have hall : e.digits.chars.all Char.isDigit := List.all_eq_true.mpr fun _ => Digits.isDigit_of_mem
  have hmark : ((if e.capital then 'E' else 'e') == 'e' ||
      (if e.capital then 'E' else 'e') == 'E') = true := by
    cases e.capital <;> rfl
  simp [Exponent.chars, Numeral.readExponent?, hsign, hne, hall, hmark, digitsValue_chars,
    Exponent.value, SignMark.apply]

namespace Figure

theorem isFigureChar_of_mem {f : Figure} {c : Char} (h : c ∈ f.chars) : IsFigureChar c := by
  have hsign : ∀ s : SignMark, ∀ c ∈ s.chars, IsFigureChar c := fun s c hc => by
    cases s <;> simp_all [SignMark.chars, IsFigureChar, figureMarks]
  have hdigits : ∀ ds : Digits, ∀ c ∈ ds.chars, IsFigureChar c := fun ds c hc =>
    Or.inl (Digits.isDigit_of_mem hc)
  simp only [chars, unsigned, List.mem_append] at h
  rcases h with h | h | h | h
  · exact hsign _ c h
  · exact hdigits _ c h
  · cases hp : f.part with
    | none => simp [hp] at h
    | some ds =>
      rw [hp] at h
      rcases List.mem_cons.mp h with rfl | h
      · exact Or.inr (by decide)
      · exact hdigits _ c h
  · cases he : f.exponent with
    | none => simp [he] at h
    | some e =>
      rw [he] at h
      rcases List.mem_cons.mp h with rfl | h
      · cases e.capital <;> exact Or.inr (by decide)
      · exact (List.mem_append.mp h).elim (hsign _ c) (hdigits _ c)

theorem head_unsigned (f : Figure) : ∀ c ∈ f.unsigned.head?, c.isDigit ∨ c = '.' := by
  have hne := f.nonempty
  intro c hc
  cases hw : f.whole with
  | cons d ds =>
    rw [unsigned, hw] at hc
    cases hc
    exact Or.inl (isDigit_digitChar d)
  | nil =>
    cases hp : f.part with
    | none => simp [hw, hp] at hne
    | some ds =>
      rw [unsigned, hw, hp] at hc
      cases hc
      exact Or.inr rfl

theorem chars_ne_nil (f : Figure) : f.chars ≠ [] := by
  intro h
  obtain ⟨hw, htail⟩ := List.append_eq_nil_iff.mp (List.append_eq_nil_iff.mp h).2
  refine f.nonempty ?_
  rw [Digits.chars_eq_nil.mp hw]
  cases hp : f.part with
  | none => rfl
  | some ds => simp [hp] at htail

/-- Behind the digits stands nothing, or the letter of an exponent. -/
theorem tail_exponent (e : Option Exponent) :
    Numeral.readExponent? (e.elim [] Exponent.chars) = some (e.elim 0 Exponent.value) ∧
      Text.Ends Char.isDigit (e.elim [] Exponent.chars) ∧
      ∀ cs, e.elim [] Exponent.chars ≠ '.' :: cs := by
  cases e with
  | none => exact ⟨rfl, by simp [Text.Ends], by simp⟩
  | some e =>
    refine ⟨readExponent?_chars e, ?_, fun cs => ?_⟩ <;>
      cases hc : e.capital <;> simp [Exponent.chars, Text.Ends, hc]

theorem readUnsigned?_unsigned (f : Figure) (negative : Bool) :
    Numeral.readUnsigned? negative f.unsigned =
      some (.decimal negative (Digits.value (f.whole ++ f.part.getD [])) f.place) := by
  have hne := f.nonempty
  have hw : ∀ c ∈ f.whole.chars, c.isDigit := fun _ => Digits.isDigit_of_mem
  obtain ⟨hread, hends, hpoint⟩ := tail_exponent f.exponent
  cases hpart : f.part with
  | none =>
    have hne' : f.whole.chars ≠ [] := by simpa [hpart] using hne
    have h := Numeral.readUnsigned?_whole negative hw hne' hends hpoint
    simp [unsigned, hpart, h, hread, digitsValue_chars, place]
  | some ds =>
    have hp : ∀ c ∈ ds.chars, c.isDigit := fun _ => Digits.isDigit_of_mem
    have hne' : f.whole.chars ++ ds.chars ≠ [] := by simpa [hpart] using hne
    have h := Numeral.readUnsigned?_point negative hw hp hne' hends
    rw [← Digits.chars_append, digitsValue_chars] at h
    simp [unsigned, hpart, h, hread, place]

/-- A figure is read digit by digit. -/
theorem read?_text (f : Figure) : Numeral.read? f.text =
    some (.decimal f.sign.isMinus (Digits.value (f.whole ++ f.part.getD [])) f.place) := by
  have hsign : takeSign f.chars = (f.sign.isMinus, f.unsigned) :=
    takeSign_chars f.sign f.head_unsigned
  rw [Numeral.read?, text, plainNumeral_figure fun _ => isFigureChar_of_mem,
    dropUnderscores_figure fun c hc => (isFigureChar_of_mem hc).ne_underscore, Option.bind_some,
    hsign]
  exact readUnsigned?_unsigned f _

end Figure

/-- **A figure is read as the number it stands for.** -/
theorem readNumber?_figure (f : Figure) : readNumber? f.text = some f.value := by
  rw [readNumber?, f.read?_text]
  rfl

theorem isDigit_of_mem_natDigits {n : ℕ} {c : Char} (h : c ∈ natDigits n) : c.isDigit :=
  Nat.isDigit_of_mem_toDigits (by decide) (by decide) h

theorem digitsValue_natDigits (n : ℕ) : digitsValue (natDigits n) = n :=
  Nat.ofDigitChars_ten_toDigits

/-- **A natural number is read from its digits**, if there are not too many. -/
theorem readInt?_natDigits {n : ℕ} (h : (natDigits n).length ≤ maxWholeDigits) :
    readInt? (String.ofList (natDigits n)) = some (n : ℤ) := by
  have hdigit : ∀ c ∈ natDigits n, c.isDigit := fun _ => isDigit_of_mem_natDigits
  have hsign : takeSign (natDigits n) = (false, natDigits n) :=
    takeSign_chars .unsigned fun c hc => Or.inl (hdigit c (List.mem_of_mem_head? hc))
  have hne : natDigits n ≠ [] := Nat.toDigits_ne_nil
  rw [readInt?, plainNumeral_figure fun c hc => Or.inl (hdigit c hc), hsign]
  dsimp only
  rw [dropUnderscores_figure fun c hc => IsFigureChar.ne_underscore (Or.inl (hdigit c hc))]
  simp [hne, h, digitsValue_natDigits, List.all_eq_true.mpr hdigit]

end Reading

end Scrawl.Decimal
