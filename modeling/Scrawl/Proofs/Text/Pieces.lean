import Mathlib.Data.List.Basic
import Scrawl.Text.Lines

/-!
# Scrawl.Proofs.Text.Pieces — the pieces of a text between the occurrences of a character

* `intercalate_splitOnChar`: the pieces, put together again, make up the text.
* `mem_splitOnChar`: they have its characters, but for the one between them.
* `splitOnChar_append`: a text that goes on first goes on in its last piece.
-/

namespace Scrawl.Text

variable {mark c : Char} {cs : List Char}

theorem splitOnChar_ne_nil (mark : Char) (cs : List Char) : splitOnChar mark cs ≠ [] := by
  cases cs with
  | nil => exact List.cons_ne_nil _ _
  | cons c cs =>
    rw [splitOnChar]
    split
    · exact List.cons_ne_nil _ _
    · split <;> exact List.cons_ne_nil _ _

theorem intercalate_splitOnChar (mark : Char) (cs : List Char) :
    [mark].intercalate (splitOnChar mark cs) = cs := by
  induction cs with
  | nil => rfl
  | cons c cs ih =>
    rw [splitOnChar]
    obtain ⟨piece, more, hsplit⟩ := List.exists_cons_of_ne_nil (splitOnChar_ne_nil mark cs)
    split
    · next hc =>
      rw [hsplit] at ih ⊢
      rw [List.intercalate_cons_cons, ih, show c = mark by simpa using hc]
      rfl
    · rw [hsplit] at ih ⊢
      cases more with
      | nil =>
        rw [List.intercalate_singleton] at ih ⊢
        rw [ih]
      | cons next more =>
        rw [List.intercalate_cons_cons] at ih ⊢
        rw [List.cons_append, List.cons_append, ih]

theorem mem_splitOnChar :
    (∃ piece ∈ splitOnChar mark cs, c ∈ piece) ↔ c ∈ cs ∧ c ≠ mark := by
  induction cs with
  | nil => simp [splitOnChar]
  | cons d cs ih =>
    rw [splitOnChar]
    split
    · next hd =>
      obtain rfl : d = mark := by simpa using hd
      rw [List.exists_mem_cons_iff, ih, List.mem_cons]
      constructor
      · rintro (hnil | ⟨hc, hne⟩)
        · exact absurd hnil List.not_mem_nil
        · exact ⟨Or.inr hc, hne⟩
      · rintro ⟨hc, hne⟩
        exact Or.inr ⟨hc.resolve_left hne, hne⟩
    · next hd =>
      have hmark : d ≠ mark := by simpa using hd
      obtain ⟨piece, more, hsplit⟩ := List.exists_cons_of_ne_nil (splitOnChar_ne_nil mark cs)
      rw [hsplit, List.exists_mem_cons_iff] at ih
      rw [hsplit, List.exists_mem_cons_iff, List.mem_cons, List.mem_cons]
      by_cases hc : c = d
      · exact iff_of_true (Or.inl (Or.inl hc)) ⟨Or.inl hc, hc ▸ hmark⟩
      · rw [or_iff_right hc, or_iff_right hc]
        exact ih

theorem length_splitOnChar (mark : Char) (cs : List Char) :
    (splitOnChar mark cs).length = cs.count mark + 1 := by
  induction cs with
  | nil => rfl
  | cons c cs ih =>
    rw [splitOnChar]
    obtain ⟨piece, more, hsplit⟩ := List.exists_cons_of_ne_nil (splitOnChar_ne_nil mark cs)
    by_cases hc : c = mark
    · rw [if_pos (by simpa using hc), List.length_cons, ih, hc, List.count_cons_self]
    · rw [if_neg (by simpa using hc), List.count_cons_of_ne (by simpa using hc), ← ih, hsplit]
      rfl

/-- What does not have the character is one piece. -/
theorem splitOnChar_of_not_mem (h : mark ∉ cs) : splitOnChar mark cs = [cs] := by
  have hlength : (splitOnChar mark cs).length = 1 := by
    rw [length_splitOnChar, List.count_eq_zero.mpr h]
  obtain ⟨piece, hpiece⟩ := List.length_eq_one_iff.mp hlength
  have hwhole := intercalate_splitOnChar mark cs
  rw [hpiece, List.intercalate_singleton] at hwhole
  rw [hpiece, hwhole]

/-- **A text that goes on first goes on in its last piece.** -/
theorem splitOnChar_append (mark : Char) (cs ds : List Char) : ∃ init last first rest,
    splitOnChar mark cs = init ++ [last] ∧ splitOnChar mark ds = first :: rest ∧
      splitOnChar mark (cs ++ ds) = init ++ (last ++ first) :: rest := by
  obtain ⟨first, rest, hds⟩ := List.exists_cons_of_ne_nil (splitOnChar_ne_nil mark ds)
  induction cs with
  | nil => exact ⟨[], [], first, rest, rfl, hds, hds⟩
  | cons c cs ih =>
    obtain ⟨init, last, first', rest', hcs, hds', happend⟩ := ih
    rw [List.cons_append, splitOnChar, splitOnChar, hcs, happend]
    by_cases hc : c = mark
    · simp only [if_pos (show (c == mark) = true by simpa using hc)]
      exact ⟨[] :: init, last, first', rest', rfl, hds', rfl⟩
    · simp only [if_neg (show ¬ (c == mark) = true by simpa using hc)]
      cases init with
      | nil => exact ⟨[], c :: last, first', rest', rfl, hds', rfl⟩
      | cons piece init => exact ⟨(c :: piece) :: init, last, first', rest', rfl, hds', rfl⟩

end Scrawl.Text
