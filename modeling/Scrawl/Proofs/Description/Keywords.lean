import Mathlib
import Scrawl.Proofs.Description.Kinds

/-!
# Scrawl.Proofs.Description.Keywords — how keywords are written

* `exists_piece_of_scanFrom`: every token of a text is one of its pieces.
* `piece?_of_letter`: a piece that begins with a letter is a name or a keyword.
* `keyword_iff_of_scan`: the tokens that are a keyword are those whose text is its word, in any
  case.  Quotes belong to the text of a token, so a quoted word is no keyword.
-/

namespace Scrawl.Description

/-- The word of a keyword. -/
def Keyword.word : Keyword → String
  | strict => "strict"
  | graph => "graph"
  | digraph => "digraph"
  | node => "node"
  | edge => "edge"
  | subgraph => "subgraph"

theorem Keyword.ofName?_eq_some {s : String} {k : Keyword} : ofName? s = some k ↔ s = k.word := by
  constructor
  · intro h
    unfold ofName? at h
    split at h <;> cases h <;> rfl
  · rintro rfl
    cases k <;> rfl

/-- A word is letters in lower case. -/
theorem Keyword.isAlpha_head (k : Keyword) : ∃ c cs, k.word.toList = c :: cs ∧ c.isAlpha := by
  cases k <;> exact ⟨_, _, rfl, by decide⟩

/-! ### Pieces that begin with a letter -/

section Letter

variable {c : Char} {cs : List Char}

theorem letter_range (h : c.isAlpha) :
    65 ≤ c.toNat ∧ c.toNat ≤ 90 ∨ 97 ≤ c.toNat ∧ c.toNat ≤ 122 := by
  simp only [Char.isAlpha, Char.isUpper, Char.isLower, ge_iff_le, UInt32.le_iff_toNat_le,
    Bool.or_eq_true, Bool.and_eq_true, decide_eq_true_eq] at h
  exact h

theorem isAlpha_of_toLower (h : c.toLower.isAlpha) : c.isAlpha := by
  by_cases hu : c.isUpper
  · simp [Char.isAlpha, hu]
  · have hc : c.toLower = c := dif_neg (by simpa [Char.isUpper] using hu)
    rwa [hc] at h

theorem isBlank_of_letter (h : c.isAlpha) : Text.isBlank c = false := by
  have := letter_range h
  simp only [Text.isBlank, Bool.or_eq_false_iff, Bool.and_eq_false_iff, decide_eq_false_iff_not,
    beq_eq_false_iff_ne]
  omega

theorem isDigit_of_letter (h : c.isAlpha) : Text.isDigit c = false := by
  have hr := letter_range h
  have hz : ∀ z ∈ Text.zeros, z + 10 ≤ 65 ∨ 122 < z := by decide
  simp only [Text.isDigit, Text.digitValue?, Option.isSome_map, Option.isSome_eq_false_iff,
    Option.isNone_iff_eq_none, List.find?_eq_none]
  intro z hzm
  have := hz z hzm
  simp
  omega

/-- A piece that begins with a letter goes as far as a name may. -/
theorem piece?_of_letter (hc : c.isAlpha) : piece? (c :: cs) =
    some ⟨nameLexeme (c :: cs.takeWhile isNamePart), c :: cs.takeWhile isNamePart,
      cs.dropWhile isNamePart⟩ :=
  kindOf_iff.mp (.name (by simp [isNameStart, hc]) (isBlank_of_letter hc) (isDigit_of_letter hc))

theorem lexeme_of_letter {p : Piece} (hc : c.isAlpha) (h : piece? (c :: cs) = some p) :
    p.lexeme = some (nameLexeme p.raw) := by
  rw [piece?_of_letter hc] at h
  cases h
  rfl

end Letter

/-! ### Pieces that are keywords -/

theorem nameLexeme_eq_keyword {raw : List Char} {k : Keyword} :
    nameLexeme raw = .keyword k ↔ raw.map Char.toLower = k.word.toList := by
  rw [← String.ofList_inj, String.ofList_toList, ← Keyword.ofName?_eq_some, nameLexeme]
  split
  · next k' hk' => simp [hk']
  · next hk' => simp [hk']

/-- A piece is a keyword if and only if its text is the word in some case. -/
theorem keyword_iff_of_piece {cs : List Char} {p : Piece} (h : piece? cs = some p) (k : Keyword) :
    p.lexeme = some (.keyword k) ↔ p.raw.map Char.toLower = k.word.toList := by
  constructor
  · intro hl
    cases kindOf_iff.mpr h with
    | name => exact nameLexeme_eq_keyword.mp (Option.some.inj hl)
    | blanks | comment | string | number | arrow | dashes | mark => cases hl
  · intro hraw
    -- the text begins with a letter, like the word, so that no other kind of piece is tried
    obtain ⟨d, ds, hd, hda⟩ := k.isAlpha_head
    obtain ⟨hne, happ⟩ := piece?_append h
    obtain ⟨c, raw, hc⟩ := List.exists_cons_of_ne_nil hne
    have hca : c.isAlpha := by
      rw [hc, hd, List.map_cons, List.cons_eq_cons] at hraw
      exact isAlpha_of_toLower (hraw.1 ▸ hda)
    rw [← happ, hc, List.cons_append] at h
    rw [lexeme_of_letter hca h, nameLexeme_eq_keyword.mpr hraw]

/-! ### Tokens -/

/-- Every token of a text is one of its pieces. -/
theorem exists_piece_of_scanFrom {done : List Token} {position : Position} {cs : List Char}
    {s : Scan} (h : scanFrom done position cs = .ok s) {t : Token} (ht : t ∈ s.tokens) :
    t ∈ done ∨ ∃ cs p, piece? cs = some p ∧ p.lexeme = some t.lexeme ∧ p.raw = t.raw := by
  fun_induction scanFrom done position cs with
  | case1 =>
    cases h
    exact Or.inl (List.mem_reverse.mp ht)
  | case2 => cases h
  | case3 done position c cs p hp done' ih =>
    rcases ih h with hmem | hpiece
    · cases hl : p.lexeme with
      | none => exact Or.inl (by simpa [done', hl] using hmem)
      | some lexeme =>
        simp only [done', hl] at hmem
        rcases List.mem_cons.mp hmem with rfl | hmem
        · exact Or.inr ⟨_, p, hp, hl, rfl⟩
        · exact Or.inl hmem
    · exact Or.inr hpiece

/-- **A token is a keyword if and only if its text is the word in some case.** -/
theorem keyword_iff_of_scan {text : String} {s : Scan} (h : scan text = .ok s) {t : Token}
    (ht : t ∈ s.tokens) (k : Keyword) :
    t.lexeme = .keyword k ↔ t.raw.map Char.toLower = k.word.toList := by
  rcases exists_piece_of_scanFrom h ht with hnil | ⟨cs, p, hp, hl, hraw⟩
  · exact absurd hnil List.not_mem_nil
  · rw [← hraw, ← keyword_iff_of_piece hp, hl, Option.some.injEq]

end Scrawl.Description
