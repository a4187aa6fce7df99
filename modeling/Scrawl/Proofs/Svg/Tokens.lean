import Mathlib.Tactic.Set
import Scrawl.Proofs.Svg.Xml
import Scrawl.Proofs.Text.Lines
import Scrawl.Svg.Element

/-!
# Scrawl.Proofs.Svg.Tokens — what is read from tags and texts

* `expand_escapeText`, `expand_escapeValue`: escapes are undone.
* `token?_opening`, `token?_empty`, `token?_closing`: a tag is read with its attributes, whatever
  their values are.
* `token?_text`: a text is read up to the tag behind it, whatever it is.
-/

namespace Scrawl.Svg

open Text Xml

/-! ### Escapes -/

section Escapes

variable {plain : Char → Option Char} {c : Char} {name rest : List Char}

theorem do_cons (a : Option Char) (b : Option (List Char)) :
    (do return (← a) :: (← b)) = a.bind fun c => b.map (c :: ·) := by
  cases a with
  | none => rfl
  | some c => cases b <;> rfl

theorem expand_within (h : ';' ∉ name) (before : List Char) :
    expand plain (some before) (name ++ ';' :: rest) =
      (referred? (before.reverse ++ name)).bind fun c =>
        (expand plain none rest).map (c :: ·) := by
  induction name generalizing before with
  | nil =>
    rw [List.nil_append, List.append_nil, expand, if_pos (by decide)]
    exact do_cons _ _
  | cons c name ih =>
    obtain ⟨hc, hname⟩ := List.ne_and_not_mem_of_not_mem_cons h
    have hstep : expand plain (some before) (c :: (name ++ ';' :: rest)) =
        expand plain (some (c :: before)) (name ++ ';' :: rest) := by
      rw [expand, if_neg (by simpa using Ne.symm hc)]
    rw [List.cons_append, hstep, ih hname, List.reverse_cons, List.append_assoc,
      List.singleton_append]

theorem expand_reference (h : ';' ∉ name) (hc : referred? name = some c) :
    expand plain none ('&' :: (name ++ ';' :: rest)) = (expand plain none rest).map (c :: ·) := by
  have hopen : expand plain none ('&' :: (name ++ ';' :: rest)) =
      expand plain (some []) (name ++ ';' :: rest) := rfl
  rw [hopen, expand_within h, List.reverse_nil, List.nil_append, hc]
  rfl

theorem expand_plain {d : Char} (h : c ≠ '&') (hc : plain c = some d) :
    expand plain none (c :: rest) = (expand plain none rest).map (d :: ·) := by
  rw [expand, if_neg (by simpa using h), hc]
  exact do_cons _ _

/-- The characters that references are written with. -/
def referenceChars : List Char := "#0139aglmopqtu".toList

/-- A character of a text is a reference to it or stands for itself. -/
theorem escapeText_cases (c : Char) :
    (∃ name, escapeText c = '&' :: (name ++ [';']) ∧ name ⊆ referenceChars ∧
      referred? name = some c) ∨
    escapeText c = [c] ∧ c ≠ '&' ∧ c ≠ '<' ∧ c ≠ '>' := by
  unfold escapeText
  split
  · exact Or.inl ⟨"amp".toList, rfl, by decide, rfl⟩
  · exact Or.inl ⟨"lt".toList, rfl, by decide, rfl⟩
  · exact Or.inl ⟨"gt".toList, rfl, by decide, rfl⟩
  · next hamp hlt hgt => exact Or.inr ⟨rfl, hamp, hlt, hgt⟩

/-- A character of a value is a reference to it or stands for itself. -/
theorem escapeValue_cases (c : Char) :
    (∃ name, escapeValue c = '&' :: (name ++ [';']) ∧ name ⊆ referenceChars ∧
      referred? name = some c) ∨
    escapeValue c = [c] ∧ c ≠ '&' ∧ c ≠ '<' ∧ c ≠ '"' ∧ (isSpace c → c = ' ') := by
  unfold escapeValue
  split
  · exact Or.inl ⟨"quot".toList, rfl, by decide, rfl⟩
  · exact Or.inl ⟨"#13".toList, rfl, by decide, by decide⟩
  · exact Or.inl ⟨"#10".toList, rfl, by decide, by decide⟩
  · exact Or.inl ⟨"#09".toList, rfl, by decide, by decide⟩
  · next hquote hreturn hfeed htab =>
    rcases escapeText_cases c with hname | ⟨hself, hamp, hlt, -⟩
    · exact Or.inl hname
    · refine Or.inr ⟨hself, hamp, hlt, hquote, fun hspace => ?_⟩
      simpa [isSpace, show ¬ c = '\r' from hreturn, show ¬ c = '\n' from hfeed,
        show ¬ c = '\t' from htab] using hspace

theorem semicolon_not_mem (h : name ⊆ referenceChars) : ';' ∉ name := fun hmem =>
  absurd (h hmem) (by decide)

theorem expand_escapeText (c : Char) (rest : List Char) :
    expand some none (escapeText c ++ rest) = (expand some none rest).map (c :: ·) := by
  rcases escapeText_cases c with ⟨name, hescape, hname, hc⟩ | ⟨hself, hamp, -⟩
  · rw [hescape, List.cons_append, List.append_assoc]
    exact expand_reference (semicolon_not_mem hname) hc
  · rw [hself]
    exact expand_plain hamp rfl

theorem expand_escapeValue (c : Char) (rest : List Char) :
    expand valueChar? none (escapeValue c ++ rest) =
      (expand valueChar? none rest).map (c :: ·) := by
  rcases escapeValue_cases c with ⟨name, hescape, hname, hc⟩ | ⟨hself, hamp, hlt, -, hspace⟩
  · rw [hescape, List.cons_append, List.append_assoc]
    exact expand_reference (semicolon_not_mem hname) hc
  · rw [hself]
    refine expand_plain hamp ?_
    rw [valueChar?, if_neg (by simpa using hlt)]
    split
    · next h => rw [hspace h]
    · rfl

/-- Escapes are undone character by character. -/
theorem expand_flatMap {escape : Char → List Char}
    (h : ∀ c rest, expand plain none (escape c ++ rest) = (expand plain none rest).map (c :: ·))
    (cs : List Char) : expand plain none (cs.flatMap escape) = some cs := by
  induction cs with
  | nil => rfl
  | cons c cs ih => rw [List.flatMap_cons, h, ih, Option.map_some]

theorem mem_reference (hname : name ⊆ referenceChars) (h : c ∈ '&' :: (name ++ [';'])) :
    c ∈ '&' :: ';' :: referenceChars := by
  rcases List.mem_cons.mp h with rfl | h
  · exact List.mem_cons_self
  · rcases List.mem_append.mp h with h | h
    · exact List.mem_cons_of_mem _ (List.mem_cons_of_mem _ (hname h))
    · exact List.mem_cons_of_mem _ (List.mem_singleton.mp h ▸ List.mem_cons_self)

/-- The characters of an escaped text are those of references, or of the text and not of markup. -/
theorem mem_escapedText {cs : List Char} (h : c ∈ cs.flatMap escapeText) :
    c ∈ '&' :: ';' :: referenceChars ∨ c ∈ cs ∧ c ≠ '<' ∧ c ≠ '>' := by
  obtain ⟨d, hd, hc⟩ := List.mem_flatMap.mp h
  rcases escapeText_cases d with ⟨name, hescape, hname, -⟩ | ⟨hself, -, hlt, hgt⟩
  · rw [hescape] at hc
    exact Or.inl (mem_reference hname hc)
  · rw [hself] at hc
    obtain rfl := List.mem_singleton.mp hc
    exact Or.inr ⟨hd, hlt, hgt⟩

theorem escapedText_ne_nil {cs : List Char} (h : cs ≠ []) : cs.flatMap escapeText ≠ [] := by
  obtain ⟨c, cs, rfl⟩ := List.exists_cons_of_ne_nil h
  rw [List.flatMap_cons]
  rcases escapeText_cases c with ⟨name, hescape, -⟩ | ⟨hself, -⟩
  · rw [hescape]
    exact List.cons_ne_nil _ _
  · rw [hself]
    exact List.cons_ne_nil _ _

/-- The characters of an escaped value are those of references, or of the value and not of markup. -/
theorem mem_escapedValue {cs : List Char} (h : c ∈ cs.flatMap escapeValue) :
    c ∈ '&' :: ';' :: referenceChars ∨ c ∈ cs ∧ c ≠ '"' ∧ (isSpace c → c = ' ') := by
  obtain ⟨d, hd, hc⟩ := List.mem_flatMap.mp h
  rcases escapeValue_cases d with ⟨name, hescape, hname, -⟩ | ⟨hself, -, -, hquote, hspace⟩
  · rw [hescape] at hc
    exact Or.inl (mem_reference hname hc)
  · rw [hself] at hc
    obtain rfl := List.mem_singleton.mp hc
    exact Or.inr ⟨hd, hquote, hspace⟩

end Escapes

/-! ### Tags and texts -/

/-- Whether the text is a name. -/
def isName (s : String) : Bool :=
  match s.toList with
  | [] => false
  | c :: cs => isNameStart c && cs.all isNameChar

/-- The attributes as they are written. -/
def attributeChars (attributes : Attributes) : List Char :=
  attributes.flatMap fun (name, value) =>
    ' ' :: name.toList ++ "=\"".toList ++ value.toList.flatMap escapeValue ++ ['"']

section Tokens

variable {name tag : String} {attributes : Attributes} {cs rest : List Char}

theorem exists_of_isName (h : isName name) :
    ∃ c cs, name.toList = c :: cs ∧ isNameStart c ∧ ∀ d ∈ cs, isNameChar d := by
  unfold isName at h
  split at h
  · cases h
  · next c cs hname =>
    obtain ⟨hc, hcs⟩ := Bool.and_eq_true_iff.mp h
    exact ⟨c, cs, hname, hc, List.all_eq_true.mp hcs⟩

/-- A character that is named is not one that a name begins with. -/
theorem ne_of_isNameStart {c d : Char} (hc : isNameStart c) (hd : isNameStart d = false) :
    c ≠ d := by
  rintro rfl
  rw [hc] at hd
  cases hd

theorem isSpace_of_isNameStart {c : Char} (h : isNameStart c) : isSpace c = false := by
  have hspace : c ≠ ' ' := ne_of_isNameStart h (by decide)
  have htab : c ≠ '\t' := ne_of_isNameStart h (by decide)
  have hreturn : c ≠ '\r' := ne_of_isNameStart h (by decide)
  have hfeed : c ≠ '\n' := ne_of_isNameStart h (by decide)
  simp [isSpace, hspace, htab, hreturn, hfeed]

theorem name?_name (h : isName name) (hends : Ends isNameChar rest) :
    name? (name.toList ++ rest) = some (name, rest) := by
  obtain ⟨c, cs, hname, hc, hcs⟩ := exists_of_isName h
  obtain ⟨htake, hdrop⟩ := span_append hcs hends
  rw [hname, List.cons_append, name?, if_pos hc, htake, hdrop, ← hname, String.ofList_toList]

theorem dropWhile_name (h : isName name) (rest : List Char) :
    (' ' :: (name.toList ++ rest)).dropWhile isSpace = name.toList ++ rest := by
  obtain ⟨c, cs, hname, hc, -⟩ := exists_of_isName h
  rw [List.dropWhile_cons_of_pos rfl, hname, List.cons_append,
    List.dropWhile_cons_of_neg (by simp [isSpace_of_isNameStart hc])]

theorem cutAt?_char {c : Char} (h : c ∉ cs) : cutAt? [c] (cs ++ c :: rest) = some (cs, rest) := by
  induction cs with
  | nil => simp [cutAt?]
  | cons d cs ih =>
    obtain ⟨hd, hcs⟩ := List.ne_and_not_mem_of_not_mem_cons h
    rw [List.cons_append, cutAt?, if_neg (by simpa using hd), ih hcs]
    rfl

theorem cutAt?_eq_none {mark : List Char} {c : Char} (hc : c ∈ mark) (h : c ∉ cs) :
    cutAt? mark cs = none := by
  induction cs with
  | nil => rfl
  | cons d cs ih =>
    rw [cutAt?, if_neg, ih (List.not_mem_of_not_mem_cons h)]
    · rfl
    · exact fun hmark => h ((List.isPrefixOf_iff_prefix.mp hmark).subset hc)

theorem quote_not_mem_escaped (cs : List Char) : '"' ∉ cs.flatMap escapeValue := by
  intro h
  rcases mem_escapedValue h with h | ⟨-, h, -⟩
  · exact absurd h (by decide)
  · exact h rfl

theorem attribute?_attribute (h : isName name) (value : String) (rest : List Char) :
    attribute? (attributeChars [(name, value)] ++ rest) = some ((name, value), rest) := by
  set raw := value.toList.flatMap escapeValue with hraw
  have hchars : attributeChars [(name, value)] ++ rest =
      ' ' :: (name.toList ++ ('=' :: '"' :: (raw ++ '"' :: rest))) := by
    simp [attributeChars, hraw]
  have hname : name? (name.toList ++ ('=' :: '"' :: (raw ++ '"' :: rest))) =
      some (name, '=' :: '"' :: (raw ++ '"' :: rest)) :=
    name?_name h fun c hc => Option.some.inj hc ▸ by decide
  have hmark : behind? '=' ('=' :: '"' :: (raw ++ '"' :: rest)) = some ('"' :: (raw ++ '"' :: rest)) :=
    rfl
  have hquoted : quoted? ('"' :: (raw ++ '"' :: rest)) = some (raw, rest) :=
    cutAt?_char (quote_not_mem_escaped _)
  have hvalue : expand valueChar? none raw = some value.toList :=
    expand_flatMap expand_escapeValue _
  rw [hchars, attribute?, dropWhile_name h, hname]
  simp [isSpace, hmark, hquoted, hvalue]

theorem attributesFrom_none (h : attribute? cs = none) : attributesFrom cs = ([], cs) := by
  rw [attributesFrom.eq_def]
  split
  · rfl
  · next heq =>
    rw [h] at heq
    cases heq

theorem attributesFrom_some {a : String × String} (h : attribute? cs = some (a, rest)) :
    attributesFrom cs = (a :: (attributesFrom rest).1, (attributesFrom rest).2) := by
  rw [attributesFrom.eq_def]
  split
  · next heq =>
    rw [h] at heq
    cases heq
  · next heq =>
    rw [h] at heq
    cases heq
    rfl

theorem attributesFrom_attributes (h : ∀ a ∈ attributes, isName a.1)
    (hrest : attribute? rest = none) :
    attributesFrom (attributeChars attributes ++ rest) = (attributes, rest) := by
  induction attributes with
  | nil => exact attributesFrom_none hrest
  | cons a attributes ih =>
    obtain ⟨ha, hattributes⟩ := List.forall_mem_cons.mp h
    have hsplit : attributeChars (a :: attributes) ++ rest =
        attributeChars [a] ++ (attributeChars attributes ++ rest) := by
      simp [attributeChars]
    rw [hsplit, attributesFrom_some (attribute?_attribute ha a.2 _), ih hattributes]

theorem opening_eq (tag : String) (attributes : Attributes) :
    Element.opening tag attributes = '<' :: (tag.toList ++ attributeChars attributes) := rfl

/-- Behind a name, attributes and what ends a tag are no part of it. -/
theorem ends_attributeChars (h : Ends isNameChar rest) :
    Ends isNameChar (attributeChars attributes ++ rest) := by
  cases attributes with
  | nil => exact h
  | cons a attributes => exact fun c hc => Option.some.inj hc ▸ by decide

theorem token?_markup {c : Char} (h : isNameStart c) (cs : List Char) :
    token? ('<' :: c :: cs) = opening? (c :: cs) := by
  have hslash : c ≠ '/' := ne_of_isNameStart h (by decide)
  have hbang : c ≠ '!' := ne_of_isNameStart h (by decide)
  simp [token?, markup?, hslash, hbang]

/-- A tag of an element, up to what ends it. -/
theorem token?_tag (htag : isName tag) (hnames : ∀ a ∈ attributes, isName a.1)
    (hnodup : (attributes.map (·.1)).Nodup) (hends : Ends isNameChar rest)
    (hrest : attribute? rest = none) :
    token? (Element.opening tag attributes ++ rest) =
      match rest.dropWhile isSpace with
      | '>' :: rest => some (.opening ⟨tag, attributes⟩, rest)
      | '/' :: '>' :: rest => some (.empty ⟨tag, attributes⟩, rest)
      | _ => none := by
  have hname : name? (tag.toList ++ (attributeChars attributes ++ rest)) =
      some (tag, attributeChars attributes ++ rest) :=
    name?_name htag (ends_attributeChars hends)
  obtain ⟨c, cs, hcons, hc, -⟩ := exists_of_isName htag
  have htoken : token? (Element.opening tag attributes ++ rest) =
      opening? (tag.toList ++ (attributeChars attributes ++ rest)) := by
    rw [opening_eq, hcons]
    simp only [List.cons_append, List.append_assoc]
    exact token?_markup hc _
  rw [htoken, opening?, hname]
  show (if ((attributesFrom (attributeChars attributes ++ rest)).1.map (·.1)).Nodup then _ else _) = _
  rw [attributesFrom_attributes hnames hrest, if_pos hnodup]
  rfl

theorem token?_opening (htag : isName tag) (hnames : ∀ a ∈ attributes, isName a.1)
    (hnodup : (attributes.map (·.1)).Nodup) (rest : List Char) :
    token? (Element.opening tag attributes ++ '>' :: rest) =
      some (.opening ⟨tag, attributes⟩, rest) :=
  token?_tag htag hnames hnodup (fun _ hc => Option.some.inj hc ▸ by decide) rfl

theorem token?_empty (htag : isName tag) (hnames : ∀ a ∈ attributes, isName a.1)
    (hnodup : (attributes.map (·.1)).Nodup) (rest : List Char) :
    token? (Element.opening tag attributes ++ (" />".toList ++ rest)) =
      some (.empty ⟨tag, attributes⟩, rest) :=
  token?_tag htag hnames hnodup (fun _ hc => Option.some.inj hc ▸ by decide) rfl

theorem token?_closing (htag : isName tag) (rest : List Char) :
    token? (Element.closing tag ++ rest) = some (.closing tag, rest) := by
  have hname : name? (tag.toList ++ '>' :: rest) = some (tag, '>' :: rest) :=
    name?_name htag fun _ hc => Option.some.inj hc ▸ by decide
  have htoken : token? (Element.closing tag ++ rest) = closing? (tag.toList ++ '>' :: rest) := by
    simp [Element.closing, token?, markup?]
  rw [htoken, closing?, hname]
  rfl

theorem token?_text (hne : cs ≠ []) (rest : List Char) :
    token? (cs.flatMap escapeText ++ '<' :: rest) =
      some (.text (String.ofList cs), '<' :: rest) := by
  have hmem : ∀ c ∈ cs.flatMap escapeText, (c != '<') ∧ c ≠ '>' := by
    intro c hc
    rcases mem_escapedText hc with hc | ⟨-, hlt, hgt⟩
    · have hall : ('&' :: ';' :: referenceChars).all fun c => c != '<' && c != '>' := by decide
      simpa using List.all_eq_true.mp hall c hc
    · exact ⟨by simpa using hlt, hgt⟩
  have hends : Ends (· != '<') ('<' :: rest) := fun c hc => Option.some.inj hc ▸ by decide
  obtain ⟨htake, hdrop⟩ := span_append (fun c hc => (hmem c hc).1) hends
  have hraw : cutAt? "]]>".toList (cs.flatMap escapeText) = none :=
    cutAt?_eq_none (c := '>') (by decide) fun h => (hmem _ h).2 rfl
  have htext : text? (cs.flatMap escapeText ++ '<' :: rest) =
      some (.text (String.ofList cs), '<' :: rest) := by
    rw [text?, htake, hdrop, hraw, expand_flatMap expand_escapeText]
    rfl
  obtain ⟨c, more, hcons⟩ := List.exists_cons_of_ne_nil (escapedText_ne_nil hne)
  have hc : c ≠ '<' := by simpa using (hmem c (hcons ▸ List.mem_cons_self)).1
  rw [hcons, List.cons_append] at htext ⊢
  rw [token?, if_neg (by simpa using hc), htext]

end Tokens

end Scrawl.Svg
