import Mathlib.Data.List.Forall2
import Scrawl.Graphviz.Dot
import Scrawl.Text.Words

/-!
# Scrawl.Proofs.Text.Words — fields that a shell splits a line into

A field spells a word if it is read as that word from any gap on.  An id between double quotes
spells the id, whatever its characters are, and a plain word spells itself.

* `spells_quoteId`, `spells_plain`: fields and the words they spell.
* `wordsFrom_fields`, `words_line`: the words of fields that stand apart.
-/

namespace Scrawl.Text

/-! ### Fields and words -/

/-- Read from a gap on, the field is the word, which may still go on. -/
def Spells (field word : List Char) : Prop :=
  ∀ rest, wordsFrom .gap [] (field ++ rest) = wordsFrom .bare word.reverse rest

/-- Whether a character stands for itself outside quotes. -/
def isPlainChar (c : Char) : Bool := !(isWordGap c || c == '\\' || isQuoteMark c)

theorem isPlainChar_iff {c : Char} :
    isPlainChar c ↔ isWordGap c = false ∧ c ≠ '\\' ∧ isQuoteMark c = false := by
  simp [isPlainChar, and_assoc]

theorem wordsFrom_plain {cs : List Char} (h : ∀ c ∈ cs, isPlainChar c) (word rest : List Char) :
    wordsFrom .bare word (cs ++ rest) = wordsFrom .bare (cs.reverse ++ word) rest := by
  induction cs generalizing word with
  | nil => rfl
  | cons c cs ih =>
    obtain ⟨hc, hcs⟩ := List.forall_mem_cons.mp h
    obtain ⟨hgap, hback, hquote⟩ := isPlainChar_iff.mp hc
    rw [List.cons_append, wordsFrom]
    simp [hgap, hback, hquote, ih hcs]

/-- A word of plain characters spells itself. -/
theorem spells_plain {cs : List Char} (h : ∀ c ∈ cs, isPlainChar c) (hne : cs ≠ []) :
    Spells cs cs := by
  obtain ⟨c, cs, rfl⟩ := List.exists_cons_of_ne_nil hne
  obtain ⟨hc, hcs⟩ := List.forall_mem_cons.mp h
  obtain ⟨hgap, hback, hquote⟩ := isPlainChar_iff.mp hc
  intro rest
  rw [List.cons_append, wordsFrom]
  simp [hgap, hback, hquote, wordsFrom_plain hcs]

/-- The characters of an id between its quotes. -/
def escaped (cs : List Char) : List Char :=
  cs.flatMap fun c => if c == '"' || c == '\\' then ['\\', c] else [c]

theorem escaped_cons_of_special {c : Char} (h : c = '"' ∨ c = '\\') (cs : List Char) :
    escaped (c :: cs) = '\\' :: c :: escaped cs := by
  rcases h with rfl | rfl <;> rfl

theorem escaped_cons_of_plain {c : Char} (h : ¬ (c = '"' ∨ c = '\\')) (cs : List Char) :
    escaped (c :: cs) = c :: escaped cs := by
  rw [escaped, List.flatMap_cons, if_neg (by simpa using h)]
  rfl

theorem toList_quoteId (id : String) :
    (Graphviz.quoteId id).toList = '"' :: (escaped id.toList ++ ['"']) :=
  String.toList_ofList

/-- Between double quotes every character is read back from its escape. -/
theorem wordsFrom_escaped (cs word rest : List Char) :
    wordsFrom (.inside '"') word (escaped cs ++ rest) =
      wordsFrom (.inside '"') (cs.reverse ++ word) rest := by
  induction cs generalizing word with
  | nil => rfl
  | cons c cs ih =>
    by_cases hc : c = '"' ∨ c = '\\'
    · have hstep : wordsFrom (.inside '"') word ('\\' :: c :: (escaped cs ++ rest)) =
          wordsFrom (.inside '"') (c :: word) (escaped cs ++ rest) := by
        simp [wordsFrom, hc]
      rw [escaped_cons_of_special hc]
      simpa using hstep.trans (ih (c :: word))
    · obtain ⟨hquote, hback⟩ := not_or.mp hc
      have hstep : wordsFrom (.inside '"') word (c :: (escaped cs ++ rest)) =
          wordsFrom (.inside '"') (c :: word) (escaped cs ++ rest) := by
        simp [wordsFrom, hquote, hback]
      rw [escaped_cons_of_plain hc]
      simpa using hstep.trans (ih (c :: word))

/-- **An id between double quotes spells the id.** -/
theorem spells_quoteId (id : String) : Spells (Graphviz.quoteId id).toList id.toList := by
  intro rest
  have hopen : isWordGap '"' = false ∧ isQuoteMark '"' = true := by decide
  rw [toList_quoteId, List.cons_append, wordsFrom]
  simp [hopen, wordsFrom_escaped, wordsFrom]

/-! ### Lines of fields -/

/-- Fields, each behind a space. -/
def spaced (fields : List (List Char)) : List Char := fields.flatMap (' ' :: ·)

/-- A word ends here: the line ends, or a space follows. -/
def EndsWord (cs : List Char) : Prop := ∀ c ∈ cs.head?, c = ' '

theorem endsWord_spaced {fields : List (List Char)} {tail : List Char} (h : EndsWord tail) :
    EndsWord (spaced fields ++ tail) := by
  cases fields with
  | nil => exact h
  | cons f fields => simp [EndsWord, spaced]

theorem wordsFrom_space (rest : List Char) :
    wordsFrom .gap [] (' ' :: rest) = wordsFrom .gap [] rest := by
  simp [wordsFrom, isWordGap]

theorem wordsFrom_end (word : List Char) {tail : List Char} (h : EndsWord tail) :
    wordsFrom .bare word.reverse tail = (wordsFrom .gap [] tail).map (word :: ·) := by
  cases tail with
  | nil => simp [wordsFrom, Except.map]
  | cons c cs =>
    obtain rfl := h c rfl
    simp [wordsFrom, isWordGap]

theorem wordsFrom_fields {fields ws : List (List Char)} (hs : List.Forall₂ Spells fields ws)
    {tail : List Char} (ht : EndsWord tail) :
    wordsFrom .gap [] (spaced fields ++ tail) = (wordsFrom .gap [] tail).map (ws ++ ·) := by
  induction hs with
  | nil => cases h : wordsFrom .gap [] tail <;> simp [spaced, h, Except.map]
  | @cons f w fields ws hf _ ih =>
    have hline : spaced (f :: fields) ++ tail = ' ' :: (f ++ (spaced fields ++ tail)) := by
      simp [spaced]
    rw [hline, wordsFrom_space, hf, wordsFrom_end w (endsWord_spaced ht), ih]
    cases wordsFrom .gap [] tail <;> rfl

/-- **The words of a line** are those of its fields and those that follow. -/
theorem words_line {first : List Char} {fields : List (List Char)} {word : List Char}
    {ws : List (List Char)} (hf : Spells first word) (hs : List.Forall₂ Spells fields ws)
    {tail : List Char} (ht : EndsWord tail) {more : List String}
    (hm : words (String.ofList tail) = .ok more) :
    words (String.ofList (first ++ (spaced fields ++ tail))) =
      .ok ((word :: ws).map String.ofList ++ more) := by
  have hline := wordsFrom_fields (.cons hf hs) ht
  have hspace : spaced (first :: fields) ++ tail = ' ' :: (first ++ (spaced fields ++ tail)) := by
    simp [spaced]
  rw [hspace, wordsFrom_space] at hline
  rw [words, String.toList_ofList] at hm ⊢
  rw [hline]
  cases h : wordsFrom .gap [] tail with
  | error e =>
    rw [h] at hm
    cases hm
  | ok cs =>
    rw [h] at hm
    cases hm
    simp [Except.map]

end Scrawl.Text
