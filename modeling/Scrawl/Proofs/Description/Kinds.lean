import Mathlib
import Scrawl.Description.Lexer

/-!
# Scrawl.Proofs.Description.Kinds — the pieces that a text may begin with

A text begins with white space, a comment, a string, a number, a name or a sign, and each of these
is known by the characters that it begins with.

* `isDigit_of_isBlank`: no white space is a digit, of any script.
* `KindOf`, `kindOf_iff`: the kinds of pieces, with what keeps an earlier one from being taken.
* `isWord_nameLexeme`: a name is read as a name or as a keyword.
-/

namespace Scrawl.Description

open Text (isBlank isDigit)

/-! ### Characters -/

theorem isDigit_of_isBlank {c : Char} (h : isBlank c) : isDigit c = false := by
  have hz : ∀ z ∈ Text.zeros, 0x0D < z ∧ (z + 10 ≤ 0x85 ∨ 0xA0 < z) ∧ (z + 10 ≤ 0x1C ∨ 0x20 < z) ∧
      (z + 10 ≤ 0x1680 ∨ 0x1680 < z) ∧ (z + 10 ≤ 0x2000 ∨ 0x3000 < z) := by decide
  simp only [isBlank, Bool.or_eq_true, Bool.and_eq_true, decide_eq_true_eq, beq_iff_eq] at h
  simp only [isDigit, Text.digitValue?, Option.isSome_map, Option.isSome_eq_false_iff,
    Option.isNone_iff_eq_none, List.find?_eq_none]
  intro z hzm
  have := hz z hzm
  simp only [Bool.and_eq_true, decide_eq_true_eq]
  omega

/-- A character in a class is none that is not. -/
theorem ne_of_class {p : Char → Bool} {c d : Char} (hc : p c) (hd : p d = false) : c ≠ d := by
  rintro rfl
  rw [hc] at hd
  cases hd

/-! ### Kinds of pieces -/

/-- The kinds of pieces that a text may begin with. -/
inductive KindOf : List Char → Piece → Prop
  | blanks {cs raw rest : List Char} (h : cutRun isBlank cs = some (raw, rest)) :
    KindOf cs ⟨none, raw, rest⟩
  | comment {cs raw rest : List Char} (h : cutComment cs = some (raw, rest)) :
    KindOf cs ⟨none, raw, rest⟩
  | string {cs raw rest : List Char} (h : cutString cs = some (raw, rest)) :
    KindOf cs ⟨some (.quoted (String.ofList (unescape (raw.drop 1).dropLast))), raw, rest⟩
  | number {cs raw rest : List Char} (h : cutNumber cs = some (raw, rest)) :
    KindOf cs ⟨some (.number (String.ofList raw)), raw, rest⟩
  | name {c : Char} {cs : List Char} (hc : isNameStart c) (hblank : isBlank c = false)
      (hdigit : isDigit c = false) :
    KindOf (c :: cs) ⟨some (nameLexeme (c :: cs.takeWhile isNamePart)),
      c :: cs.takeWhile isNamePart, cs.dropWhile isNamePart⟩
  | arrow {rest : List Char} : KindOf ('-' :: '>' :: rest) ⟨some .arrow, ['-', '>'], rest⟩
  | dashes {rest : List Char} : KindOf ('-' :: '-' :: rest) ⟨some .dashes, ['-', '-'], rest⟩
  | mark (m : Mark) {rest : List Char} : KindOf (m.char :: rest) ⟨some (.mark m), [m.char], rest⟩

section Cutters

variable {c : Char} {cs raw rest : List Char}

theorem cutRun_eq_none {p : Char → Bool} (h : p c = false) : cutRun p (c :: cs) = none := by
  simp [cutRun, h]

theorem forall_of_cutRun {p : Char → Bool} (h : cutRun p cs = some (raw, rest)) :
    ∀ c ∈ raw, p c := by
  cases cs with
  | nil => cases h
  | cons c cs =>
    by_cases hc : p c
    · rw [cutRun, if_pos hc] at h
      cases h
      exact List.forall_mem_cons.mpr ⟨hc, fun d hd => List.mem_takeWhile_imp hd⟩
    · rw [cutRun, if_neg hc] at h
      cases h

theorem cutComment_eq_none (hslash : c ≠ '/') (hhash : c ≠ '#') : cutComment (c :: cs) = none := by
  simp [cutComment, hslash, hhash]

theorem cutString_eq_none (h : c ≠ '"') : cutString (c :: cs) = none := by
  simp [cutString, h]

theorem cutNumber_eq_none (hminus : c ≠ '-') (hpoint : c ≠ '.') (hdigit : isDigit c = false) :
    cutNumber (c :: cs) = none := by
  simp [cutNumber, cutUnsigned, hminus, hpoint, cutRun, hdigit]

/-- Where there is no number there is no digit. -/
theorem isDigit_of_cutNumber (h : cutNumber (c :: cs) = none) : isDigit c = false := by
  by_contra hdigit
  rw [Bool.not_eq_false] at hdigit
  have hminus : c ≠ '-' := ne_of_class hdigit (by decide)
  have hpoint : c ≠ '.' := ne_of_class hdigit (by decide)
  have hrun : cutRun isDigit (c :: cs) = some (c :: cs.takeWhile isDigit, cs.dropWhile isDigit) :=
    if_pos hdigit
  have hsome : cutUnsigned (c :: cs) ≠ none := by
    unfold cutUnsigned
    split
    · next heq => exact absurd (List.cons_eq_cons.mp heq).1 hpoint
    · rw [hrun]
      split
      · exact Option.some_ne_none _
      · exact Option.some_ne_none _
  unfold cutNumber at h
  split at h
  · next heq => exact hminus (List.cons_eq_cons.mp heq).1
  · exact hsome h

theorem head_of_cutComment (h : cutComment cs = some (raw, rest)) :
    ∃ c ds, cs = c :: ds ∧ (c = '/' ∨ c = '#') := by
  unfold cutComment at h
  split at h
  · exact ⟨_, _, rfl, Or.inl rfl⟩
  · exact ⟨_, _, rfl, Or.inr rfl⟩
  · exact ⟨_, _, rfl, Or.inl rfl⟩
  · cases h

theorem head_of_cutString (h : cutString cs = some (raw, rest)) : ∃ ds, cs = '"' :: ds := by
  unfold cutString at h
  split at h
  · exact ⟨_, rfl⟩
  · cases h

theorem head_of_cutNumber (h : cutNumber cs = some (raw, rest)) :
    ∃ c ds, cs = c :: ds ∧ (c = '-' ∨ c = '.' ∨ isDigit c) := by
  cases cs with
  | nil => cases h
  | cons c ds =>
    refine ⟨c, ds, rfl, ?_⟩
    by_contra hc
    obtain ⟨hminus, hc⟩ := not_or.mp hc
    obtain ⟨hpoint, hdigit⟩ := not_or.mp hc
    rw [cutNumber_eq_none hminus hpoint (by simpa using hdigit)] at h
    cases h

end Cutters

theorem KindOf.of_sign {cs : List Char} {p : Piece} (h : signPiece? cs = some p) : KindOf cs p := by
  unfold signPiece? at h
  split at h
  · cases h
    exact .arrow
  · cases h
    exact .dashes
  · obtain ⟨m, hm, rfl⟩ := Option.map_eq_some_iff.mp h
    obtain rfl : m.char = _ := by simpa using List.find?_some hm
    exact .mark m
  · cases h

theorem kindOf_of_piece {cs : List Char} {p : Piece} (h : piece? cs = some p) : KindOf cs p := by
  unfold piece? at h
  rcases hblank : cutRun isBlank cs with _ | ⟨raw, rest⟩
  · rcases hcomment : cutComment cs with _ | ⟨raw, rest⟩
    · rcases hstring : cutString cs with _ | ⟨raw, rest⟩
      · rcases hnumber : cutNumber cs with _ | ⟨raw, rest⟩
        · rw [hblank, hcomment, hstring, hnumber] at h
          have h : (((cutName cs).piece fun raw => some (nameLexeme raw)) <|> signPiece? cs) =
              some p := h
          rcases orElse_cases h with h | h
          · cases cs with
            | nil => cases h
            | cons c cs =>
              obtain ⟨⟨raw, rest⟩, hname, rfl⟩ := Option.map_eq_some_iff.mp h
              by_cases hc : isNameStart c
              · rw [cutName, if_pos hc] at hname
                cases hname
                exact .name hc (by simpa [cutRun] using hblank) (isDigit_of_cutNumber hnumber)
              · rw [cutName, if_neg hc] at hname
                cases hname
          · exact .of_sign h
        · rw [hblank, hcomment, hstring, hnumber] at h
          cases h
          exact .number hnumber
      · rw [hblank, hcomment, hstring] at h
        cases h
        exact .string hstring
    · rw [hblank, hcomment] at h
      cases h
      exact .comment hcomment
  · rw [hblank] at h
    cases h
    exact .blanks hblank

/-- No piece of an earlier kind begins where one of a kind does. -/
theorem piece_of_kindOf {cs : List Char} {p : Piece} (h : KindOf cs p) : piece? cs = some p := by
  cases h with
  | blanks h =>
    unfold piece?
    rw [h]
    rfl
  | comment h =>
    obtain ⟨c, ds, rfl, hc⟩ := head_of_cutComment h
    have hblank : isBlank c = false := by rcases hc with rfl | rfl <;> decide
    unfold piece?
    rw [cutRun_eq_none hblank, h]
    rfl
  | string h =>
    obtain ⟨ds, rfl⟩ := head_of_cutString h
    unfold piece?
    rw [cutRun_eq_none (by decide), cutComment_eq_none (by decide) (by decide), h]
    rfl
  | number h =>
    obtain ⟨c, ds, rfl, hc⟩ := head_of_cutNumber h
    have hother : isBlank c = false ∧ c ≠ '/' ∧ c ≠ '#' ∧ c ≠ '"' := by
      rcases hc with rfl | rfl | hc
      · decide
      · decide
      · refine ⟨?_, ne_of_class hc (by decide), ne_of_class hc (by decide),
          ne_of_class hc (by decide)⟩
        by_contra hblank
        rw [isDigit_of_isBlank (by simpa using hblank)] at hc
        cases hc
    obtain ⟨hblank, hslash, hhash, hquote⟩ := hother
    unfold piece?
    rw [cutRun_eq_none hblank, cutComment_eq_none hslash hhash, cutString_eq_none hquote, h]
    rfl
  | @name c cs hc hblank hdigit =>
    have hne : ∀ d : Char, isNameStart d = false → c ≠ d := fun d => ne_of_class hc
    unfold piece?
    rw [cutRun_eq_none hblank, cutComment_eq_none (hne _ (by decide)) (hne _ (by decide)),
      cutString_eq_none (hne _ (by decide)),
      cutNumber_eq_none (hne _ (by decide)) (hne _ (by decide)) hdigit]
    simp only [cutName, hc, if_true]
    rfl
  | arrow => rfl
  | dashes => rfl
  | mark m => cases m <;> rfl

/-- **The pieces that a text may begin with**, each known by its first characters. -/
theorem kindOf_iff {cs : List Char} {p : Piece} : KindOf cs p ↔ piece? cs = some p :=
  ⟨piece_of_kindOf, kindOf_of_piece⟩

/-! ### Words -/

/-- Whether the lexeme is a name or a keyword. -/
def Lexeme.isWord : Lexeme → Bool
  | name _ | keyword _ => true
  | _ => false

theorem isWord_nameLexeme (raw : List Char) : (nameLexeme raw).isWord := by
  unfold nameLexeme
  split <;> rfl

theorem id?_nameLexeme {raw : List Char} {w : String} (h : (nameLexeme raw).id? = some w) :
    w = String.ofList raw := by
  unfold nameLexeme at h
  split at h
  · cases h
  · exact (Option.some.inj h).symm

end Scrawl.Description
