import Scrawl.Proofs.Description.Keywords
import Scrawl.Proofs.Text.Lines
import Scrawl.Proofs.Text.Words

/-!
# Scrawl.Proofs.Description.Lexing — the lexemes at the start of a text

`Lexes cs ls rest` says that the text `cs` begins with pieces whose lexemes are `ls`, and that
`rest` is what follows them.  The pieces are those of the whole text, so that a name or a run of
blanks goes as far as it may.

* `Lexes.append`, `Lexes.scanned`, `Lexes.scan`: lexemes in front of others, and of a text as a
  whole.
* `lexes_blanks`, `lexes_word`, `lexes_quoteId`, `lexes_mark`, `lexes_arrow`: one piece each.
-/

namespace Scrawl.Description

/-- The text begins with pieces that have the lexemes, and goes on with the rest. -/
inductive Lexes : List Char → List Lexeme → List Char → Prop
  | done {rest : List Char} : Lexes rest [] rest
  | piece {cs rest : List Char} {p : Piece} {ls : List Lexeme} (h : piece? cs = some p)
      (hr : Lexes p.rest ls rest) : Lexes cs (p.lexeme.toList ++ ls) rest

section Lexes

variable {cs mid rest : List Char} {ls ls' : List Lexeme}

theorem Lexes.append (h : Lexes cs ls mid) (h' : Lexes mid ls' rest) :
    Lexes cs (ls ++ ls') rest := by
  induction h with
  | done => exact h'
  | piece hp _ ih =>
    rw [List.append_assoc]
    exact .piece hp (ih h')

theorem Lexes.single {p : Piece} (h : piece? cs = some p) : Lexes cs p.lexeme.toList p.rest := by
  have hone := Lexes.piece h .done
  rwa [List.append_nil] at hone

/-- A text that ends behind its lexemes is cut into tokens that have them. -/
theorem Lexes.scanned (h : Lexes cs ls []) (done : List Token) (position : Position) :
    ∃ s, scanFrom done position cs = .ok s ∧
      s.tokens.map (·.lexeme) = (done.map (·.lexeme)).reverse ++ ls := by
  generalize hend : [] = tail at h
  induction h generalizing done position with
  | done =>
    subst hend
    exact ⟨⟨done.reverse, position⟩, by rw [scanFrom.eq_def], by simp⟩
  | @piece cs rest p ls hp _ ih =>
    cases cs with
    | nil => cases hp
    | cons c cs =>
      rw [scanFrom.eq_def]
      dsimp only
      split
      · next hnone =>
        rw [hp] at hnone
        cases hnone
      · next p' hsome =>
        obtain rfl : p = p' := by simpa [hp] using hsome
        cases hl : p.lexeme with
        | none => exact ih done _ hend
        | some lexeme =>
          obtain ⟨s, hs, htokens⟩ := ih (⟨lexeme, p.raw, position⟩ :: done) _ hend
          exact ⟨s, hs, by simpa using htokens⟩

theorem Lexes.scan {text : String} (h : Lexes text.toList ls []) :
    ∃ s, Description.scan text = .ok s ∧ s.tokens.map (·.lexeme) = ls :=
  h.scanned [] {}

end Lexes

/-! ### Single pieces -/

section Pieces

variable {cs rest : List Char}

theorem lexes_blanks (h : ∀ c ∈ cs, Text.isBlank c) (hr : Text.Ends Text.isBlank rest) :
    Lexes (cs ++ rest) [] rest := by
  cases cs with
  | nil => exact .done
  | cons c cs =>
    obtain ⟨hc, hcs⟩ := List.forall_mem_cons.mp h
    obtain ⟨htake, hdrop⟩ := Text.span_append hcs hr
    have hcut : cutRun Text.isBlank (c :: (cs ++ rest)) = some (c :: cs, rest) := by
      simp [cutRun, hc, htake, hdrop]
    have hpiece : piece? (c :: (cs ++ rest)) = some ⟨none, c :: cs, rest⟩ := by
      simp only [piece?, hcut, Cut.piece, Option.map_some]
      rfl
    exact Lexes.single hpiece

theorem lexes_word {c : Char} (hc : c.isAlpha) (h : ∀ d ∈ cs, isNamePart d)
    (hr : Text.Ends isNamePart rest) :
    Lexes (c :: cs ++ rest) [nameLexeme (c :: cs)] rest := by
  obtain ⟨htake, hdrop⟩ := Text.span_append h hr
  have hpiece : piece? (c :: (cs ++ rest)) = _ := piece?_of_letter hc
  rw [htake, hdrop] at hpiece
  exact Lexes.single hpiece

theorem lexes_mark (m : Mark) (rest : List Char) : Lexes (m.char :: rest) [.mark m] rest := by
  have hpiece : piece? (m.char :: rest) = some ⟨some (.mark m), [m.char], rest⟩ := by
    cases m <;> rfl
  exact Lexes.single hpiece

theorem lexes_arrow (rest : List Char) : Lexes ('-' :: '>' :: rest) [.arrow] rest :=
  Lexes.single (p := ⟨some .arrow, ['-', '>'], rest⟩) rfl

end Pieces

/-! ### Quoted ids -/

section Quoted

open Text (escaped escaped_cons_of_special escaped_cons_of_plain)

/-- A string goes on over escapes up to the closing quote. -/
theorem cutQuoted_escaped (cs taken rest : List Char) :
    cutQuoted taken (escaped cs ++ '"' :: rest) =
      some (taken.reverse ++ (escaped cs ++ ['"']), rest) := by
  induction cs generalizing taken with
  | nil => simp [escaped, cutQuoted]
  | cons c cs ih =>
    by_cases hc : c = '"' ∨ c = '\\'
    · have hstep : cutQuoted taken ('\\' :: c :: (escaped cs ++ '"' :: rest)) =
          cutQuoted (c :: '\\' :: taken) (escaped cs ++ '"' :: rest) := by
        simp [cutQuoted]
      rw [escaped_cons_of_special hc]
      simpa using hstep.trans (ih _)
    · obtain ⟨hquote, hback⟩ := not_or.mp hc
      have hstep : cutQuoted taken (c :: (escaped cs ++ '"' :: rest)) =
          cutQuoted (c :: taken) (escaped cs ++ '"' :: rest) := by
        simp [cutQuoted, hback]
      rw [escaped_cons_of_plain hc]
      simpa using hstep.trans (ih _)

/-- Every character is read back from its escape. -/
theorem unescape_escaped (cs : List Char) : unescape (escaped cs) = cs := by
  induction cs with
  | nil => rfl
  | cons c cs ih =>
    by_cases hc : c = '"' ∨ c = '\\'
    · rw [escaped_cons_of_special hc]
      rcases hc with rfl | rfl <;> simp [unescape, ih]
    · obtain ⟨-, hback⟩ := not_or.mp hc
      rw [escaped_cons_of_plain hc]
      simp [unescape, hback, ih]

/-- **An id between double quotes is a quoted string that stands for the id.** -/
theorem lexes_quoteId (id : String) (rest : List Char) :
    Lexes ((Graphviz.quoteId id).toList ++ rest) [.quoted id] rest := by
  set raw := '"' :: (escaped id.toList ++ ['"']) with hraw
  have hcut : cutString (raw ++ rest) = some (raw, rest) := by
    rw [hraw, List.cons_append, List.append_assoc]
    exact cutQuoted_escaped id.toList ['"'] rest
  have hvalue : String.ofList (unescape (raw.drop 1).dropLast) = id := by
    rw [hraw, List.drop_one, List.tail_cons, List.dropLast_concat, unescape_escaped,
      String.ofList_toList]
  have hpiece : piece? (raw ++ rest) = some ⟨some (.quoted id), raw, rest⟩ := by
    have hblank : cutRun Text.isBlank (raw ++ rest) = none := rfl
    have hcomment : cutComment (raw ++ rest) = none := rfl
    simp only [piece?, hblank, hcomment, hcut, Cut.piece, Option.map_none, Option.map_some, hvalue]
    rfl
  rw [Text.toList_quoteId]
  exact Lexes.single hpiece

end Quoted

end Scrawl.Description
