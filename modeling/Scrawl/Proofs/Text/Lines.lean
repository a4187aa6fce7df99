import Scrawl.Graphviz.Plain

/-!
# Scrawl.Proofs.Text.Lines — lines that are put together

* `span_append`: a run of characters goes up to the first that is not one of them.
* `stripChars_of_ends`: what neither begins nor ends with white space is not changed by stripping.
* `inkLines_lines`: lines that are put together are found again.
-/

namespace Scrawl.Text

open Graphviz

variable {cs ds : List Char} {c : Char}

/-! ### Runs of characters -/

/-- The text does not go on with a character of `p`. -/
def Ends (p : Char → Bool) (cs : List Char) : Prop := ∀ c ∈ cs.head?, p c = false

section Runs

variable {p : Char → Bool}

theorem dropWhile_of_ends (h : Ends p cs) : cs.dropWhile p = cs := by
  cases cs with
  | nil => rfl
  | cons c cs => rw [List.dropWhile_cons_of_neg (by simp [h c rfl])]

theorem span_append (hc : ∀ c ∈ cs, p c) (hd : Ends p ds) :
    (cs ++ ds).takeWhile p = cs ∧ (cs ++ ds).dropWhile p = ds := by
  rw [List.takeWhile_append_of_pos hc, List.dropWhile_append_of_pos hc, dropWhile_of_ends hd]
  cases ds with
  | nil => simp
  | cons d ds => simp [hd d rfl]

end Runs

/-! ### White space at the ends -/

/-- The characters begin with one that is not white space. -/
def BeginsInk (cs : List Char) : Prop := ∃ c rest, cs = c :: rest ∧ isBlank c = false

/-- The characters end with one that is not white space. -/
def EndsInk (cs : List Char) : Prop := ∃ init c, cs = init ++ [c] ∧ isBlank c = false

theorem BeginsInk.append_right (h : BeginsInk cs) (ds : List Char) : BeginsInk (cs ++ ds) := by
  obtain ⟨c, rest, rfl, hc⟩ := h
  exact ⟨c, rest ++ ds, rfl, hc⟩

theorem EndsInk.append_left (h : EndsInk ds) (cs : List Char) : EndsInk (cs ++ ds) := by
  obtain ⟨init, c, rfl, hc⟩ := h
  exact ⟨cs ++ init, c, (List.append_assoc _ _ _).symm, hc⟩

theorem endsInk_of_forall (h : ∀ c ∈ cs, isBlank c = false) (hne : cs ≠ []) : EndsInk cs :=
  ⟨cs.dropLast, cs.getLast hne, (List.dropLast_concat_getLast hne).symm,
    h _ (List.getLast_mem hne)⟩

/-- What neither begins nor ends with a character to strip is not changed. -/
theorem stripChars_of_ends {p : Char → Bool} (hb : Ends p cs)
    (he : ∀ c ∈ cs.getLast?, p c = false) : stripChars p cs = cs := by
  have hlast : Ends p cs.reverse := by rwa [Ends, List.head?_reverse]
  rw [stripChars, dropWhile_of_ends hb, dropWhile_of_ends hlast, List.reverse_reverse]

theorem strip_of_ink (hb : BeginsInk cs) (he : EndsInk cs) :
    strip (String.ofList cs) = String.ofList cs := by
  rw [strip, String.toList_ofList, stripChars_of_ends]
  · obtain ⟨c, rest, rfl, hc⟩ := hb
    simpa [Ends] using hc
  · obtain ⟨init, c, rfl, hc⟩ := he
    simpa using hc

/-! ### Lines -/

/-- No character ends a line. -/
def OneLine (cs : List Char) : Prop := ∀ c ∈ cs, isLineBoundary c = false

instance : Decidable (OneLine cs) :=
  decidable_of_iff (cs.all (!isLineBoundary ·)) (by simp [OneLine])

theorem OneLine.append (hc : OneLine cs) (hd : OneLine ds) : OneLine (cs ++ ds) := fun c h =>
  (List.mem_append.mp h).elim (hc c) (hd c)

theorem not_boundary_of_ink (h : isBlank c = false) : isLineBoundary c = false := by
  simp only [isBlank, isLineBoundary, Bool.or_eq_false_iff, Bool.and_eq_false_iff,
    decide_eq_false_iff_not, beq_eq_false_iff_ne] at h ⊢
  omega

theorem splitLinesFrom_cons (hc : isLineBoundary c = false) (line rest : List Char) :
    splitLinesFrom line (c :: rest) = splitLinesFrom (c :: line) rest := by
  have hr : c ≠ '\r' := by
    rintro rfl
    exact absurd hc (by decide)
  rw [splitLinesFrom.eq_def]
  split
  · cases ‹c :: rest = []›
  · next heq =>
    cases heq
    exact absurd rfl hr
  · next heq =>
    cases heq
    simp [hc]

theorem splitLinesFrom_append (h : OneLine cs) (line rest : List Char) :
    splitLinesFrom line (cs ++ rest) = splitLinesFrom (cs.reverse ++ line) rest := by
  induction cs generalizing line with
  | nil => rfl
  | cons c cs ih =>
    obtain ⟨hc, hcs⟩ := List.forall_mem_cons.mp h
    rw [List.cons_append, splitLinesFrom_cons hc, ih hcs]
    simp

/-- The line is not empty, and stripping leaves it as it is. -/
structure IsInkLine (cs : List Char) : Prop where
  oneLine : OneLine cs
  begins : BeginsInk cs
  ends : EndsInk cs

namespace IsInkLine

theorem ne_nil (h : IsInkLine cs) : cs ≠ [] := by
  obtain ⟨c, rest, rfl, -⟩ := h.begins
  exact List.cons_ne_nil c rest

/-- The line is kept as it is. -/
theorem kept (h : IsInkLine cs) (lines : List String) :
    ((String.ofList cs :: lines).map strip).filter (!·.isEmpty) =
      String.ofList cs :: (lines.map strip).filter (!·.isEmpty) := by
  rw [List.map_cons, strip_of_ink h.begins h.ends, List.filter_cons_of_pos]
  simp [h.ne_nil]

theorem inkLines_last (h : IsInkLine cs) : inkLines (String.ofList cs) = [String.ofList cs] := by
  have hlines : splitLines (String.ofList cs) = [String.ofList cs] := by
    have hall := splitLinesFrom_append h.oneLine [] []
    rw [List.append_nil] at hall
    rw [splitLines, String.toList_ofList, hall]
    simp [splitLinesFrom, h.ne_nil]
  rw [inkLines, hlines, h.kept]
  rfl

theorem inkLines_cons (h : IsInkLine cs) (rest : List Char) :
    inkLines (String.ofList (cs ++ '\n' :: rest)) =
      String.ofList cs :: inkLines (String.ofList rest) := by
  have hlines : splitLines (String.ofList (cs ++ '\n' :: rest)) =
      String.ofList cs :: splitLines (String.ofList rest) := by
    rw [splitLines, splitLines, String.toList_ofList, String.toList_ofList,
      splitLinesFrom_append h.oneLine]
    simp [splitLinesFrom, isLineBoundary]
  rw [inkLines, hlines, h.kept]
  rfl

end IsInkLine

/-- **Lines that are put together** are found again, with those that follow. -/
theorem inkLines_lines {lines : List (List Char)} (h : ∀ cs ∈ lines, IsInkLine cs)
    (rest : List Char) :
    inkLines (String.ofList (lines.flatMap (· ++ ['\n']) ++ rest)) =
      lines.map String.ofList ++ inkLines (String.ofList rest) := by
  induction lines with
  | nil => rfl
  | cons cs lines ih =>
    obtain ⟨hcs, hlines⟩ := List.forall_mem_cons.mp h
    have hsplit : (cs :: lines).flatMap (· ++ ['\n']) ++ rest =
        cs ++ '\n' :: (lines.flatMap (· ++ ['\n']) ++ rest) := by simp
    rw [hsplit, hcs.inkLines_cons, ih hlines]
    rfl

end Scrawl.Text
