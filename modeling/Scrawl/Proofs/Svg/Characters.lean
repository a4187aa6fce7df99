import Scrawl.Proofs.Decimal.Fixed
import Scrawl.Proofs.Svg.Tokens
import Scrawl.Scene.Markup

/-!
# Scrawl.Proofs.Svg.Characters — the characters of a drawing

All that the writer adds to values and texts, and all numbers and paths, are of characters that a
document may have.  So the text of an element is of such characters if and only if its values and
texts are.

* `legal_escaped`: escapes change nothing about it.
* `legal_chars`: the characters of the text of an element.
* `legal_number`, `legal_pathText`: those of a number and of a path.
-/

namespace Scrawl.Svg

open Text Xml

/-! ### References and names -/

section References

variable {c : Char} {cs : List Char} {name tag : String} {attributes : Attributes}

theorem isChar_of_char? {n : Nat} (h : char? n = some c) : isChar c := by
  unfold char? at h
  split at h
  · next hn =>
    cases h
    exact hn.2
  · cases h

/-- A reference stands for a character that a document may have. -/
theorem isChar_of_referred? {name : List Char} (h : referred? name = some c) : isChar c := by
  unfold referred? at h
  split at h
  · obtain ⟨n, -, hn⟩ := Option.bind_eq_some_iff.mp h
    exact isChar_of_char? hn
  · obtain ⟨n, -, hn⟩ := Option.bind_eq_some_iff.mp h
    exact isChar_of_char? hn
  · have hall : entities.all (isChar ·.2) := by decide
    obtain ⟨before, behind, hentities, -⟩ := List.lookup_eq_some_iff.mp h
    exact List.all_eq_true.mp hall (_, c) (hentities ▸ List.mem_append_right _ List.mem_cons_self)

theorem legal_escaped {escape : Char → List Char}
    (hcases : ∀ c, (∃ name, escape c = '&' :: (name ++ [';']) ∧ name ⊆ referenceChars ∧
      referred? name = some c) ∨ escape c = [c]) :
    (∀ c ∈ cs.flatMap escape, isChar c) ↔ ∀ c ∈ cs, isChar c := by
  have hone : ∀ c, (∀ d ∈ escape c, isChar d) ↔ isChar c := by
    intro c
    rcases hcases c with ⟨name, hescape, hname, hc⟩ | hself
    · have hreference : ('&' :: ';' :: referenceChars).all isChar := by decide
      rw [hescape]
      exact iff_of_true (fun d hd => List.all_eq_true.mp hreference d (mem_reference hname hd))
        (isChar_of_referred? hc)
    · rw [hself]
      exact List.forall_mem_singleton
  simp only [List.forall_mem_flatMap, hone]

theorem legal_escapedText : (∀ c ∈ cs.flatMap escapeText, isChar c) ↔ ∀ c ∈ cs, isChar c :=
  legal_escaped fun c => (escapeText_cases c).imp_right And.left

theorem legal_escapedValue : (∀ c ∈ cs.flatMap escapeValue, isChar c) ↔ ∀ c ∈ cs, isChar c :=
  legal_escaped fun c => (escapeValue_cases c).imp_right And.left

theorem isChar_of_isNameChar (h : isNameChar c) : isChar c := by
  have hc : inRanges (nameStarts ++ nameRests) c := by
    rw [inRanges, List.any_append]
    exact h
  have hranges : ∀ range ∈ nameStarts ++ nameRests,
      (0x20 ≤ range.1 ∧ range.2 ≤ 0xD7FF) ∨ (0xE000 ≤ range.1 ∧ range.2 ≤ 0xFFFD) ∨
        (0x10000 ≤ range.1 ∧ range.2 ≤ 0x10FFFF) := by decide
  obtain ⟨range, hmem, hin⟩ := List.any_eq_true.mp hc
  obtain ⟨hfirst, hlast⟩ : range.1 ≤ c.toNat ∧ c.toNat ≤ range.2 := by simpa using hin
  have := hranges range hmem
  simp only [isChar, Bool.or_eq_true, Bool.and_eq_true, decide_eq_true_eq]
  omega

theorem legal_name (h : isName name) : Legal name := by
  obtain ⟨c, cs, hname, hc, hcs⟩ := exists_of_isName h
  have hfirst : isNameChar c := by
    rw [isNameChar, hc]
    rfl
  intro d hd
  rw [hname] at hd
  rcases List.mem_cons.mp hd with rfl | hd
  · exact isChar_of_isNameChar hfirst
  · exact isChar_of_isNameChar (hcs d hd)

end References

/-! ### Elements -/

namespace Element

/-- The element and all elements in it have the property. -/
def Everywhere (p : Element → Prop) (e : Element) : Prop := ∀ x ∈ e.all, p x

section Everywhere

variable {p : Element → Prop} {tag text : String} {attributes : Attributes} {es : List Element}

theorem mem_allOf {x : Element} : x ∈ allOf es ↔ ∃ e ∈ es, x ∈ e.all := by
  induction es with
  | nil => simp [allOf]
  | cons e es ih => simp [allOf, ih]

theorem everywhere_leaf : (leaf tag attributes text).Everywhere p ↔ p (leaf tag attributes text) :=
  List.forall_mem_singleton

theorem everywhere_branch : (branch tag attributes es).Everywhere p ↔
    p (branch tag attributes es) ∧ ∀ e ∈ es, e.Everywhere p := by
  rw [Everywhere, all, List.forall_mem_cons]
  refine and_congr_right fun _ => ⟨fun h e he x hx => h x (mem_allOf.mpr ⟨e, he, hx⟩), ?_⟩
  intro h x hx
  obtain ⟨e, he, hx⟩ := mem_allOf.mp hx
  exact h e he x hx

end Everywhere

/-- The tag and the attributes of an element have names, and no two attributes have the same. -/
structure Named (e : Element) : Prop where
  tag : isName e.tag
  names : ∀ a ∈ e.attributes, isName a.1
  nodup : (e.attributes.map (·.1)).Nodup

/-- The values and the text of an element. -/
def strings (e : Element) : List String := e.attributes.map (·.2) ++ e.text?.toList

/-- The values and the text of the element are of characters that a document may have. -/
def IsLegal (e : Element) : Prop := ∀ s ∈ e.strings, Legal s

theorem isLegal_leaf {tag text : String} {attributes : Attributes} :
    (leaf tag attributes text).IsLegal ↔ (∀ a ∈ attributes, Legal a.2) ∧ Legal text := by
  rw [IsLegal, strings, List.forall_mem_append, List.forall_mem_map]
  exact and_congr_right' List.forall_mem_singleton

theorem isLegal_branch {tag : String} {attributes : Attributes} {es : List Element} :
    (branch tag attributes es).IsLegal ↔ ∀ a ∈ attributes, Legal a.2 := by
  rw [IsLegal, strings, List.forall_mem_append, List.forall_mem_map]
  exact and_iff_left fun s hs => absurd hs List.not_mem_nil

end Element

section Elements

open Element

variable {tag : String}

theorem legal_literal {cs : List Char} (h : cs.all isChar) : ∀ c ∈ cs, isChar c :=
  List.all_eq_true.mp h

theorem legal_attribute {name value : String} (h : isName name) :
    (∀ c ∈ ' ' :: name.toList ++ "=\"".toList ++ value.toList.flatMap escapeValue ++ ['"'],
      isChar c) ↔ Legal value := by
  have hspace : isChar ' ' := by decide
  have hmark : ∀ c ∈ "=\"".toList, isChar c := legal_literal (by decide)
  have hquote : ∀ c ∈ ['"'], isChar c := legal_literal (by decide)
  rw [List.forall_mem_append, List.forall_mem_append, List.forall_mem_append, List.forall_mem_cons,
    legal_escapedValue]
  exact ⟨fun h => h.1.2, fun hvalue => ⟨⟨⟨⟨hspace, legal_name h⟩, hmark⟩, hvalue⟩, hquote⟩⟩

theorem legal_opening (e : Element) (h : e.Named) :
    (∀ c ∈ opening e.tag e.attributes, isChar c) ↔ ∀ a ∈ e.attributes, Legal a.2 := by
  have hbracket : isChar '<' := by decide
  rw [opening_eq]
  simp only [List.forall_mem_append, List.forall_mem_cons]
  refine ⟨fun hall a ha => ?_, fun hvalues => ⟨hbracket, legal_name h.tag, ?_⟩⟩
  · exact (legal_attribute (h.names a ha)).mp fun c hc =>
      hall.2.2 c (List.mem_flatMap.mpr ⟨a, ha, hc⟩)
  · intro c hc
    obtain ⟨a, ha, hc⟩ := List.mem_flatMap.mp hc
    exact (legal_attribute (h.names a ha)).mpr (hvalues a ha) c hc

theorem legal_closing (h : isName tag) : ∀ c ∈ closing tag, isChar c := by
  have hslash : ∀ c ∈ "</".toList, isChar c := legal_literal (by decide)
  have hend : ∀ c ∈ ['>'], isChar c := legal_literal (by decide)
  exact List.forall_mem_append.mpr ⟨List.forall_mem_append.mpr ⟨hslash, legal_name h⟩, hend⟩

theorem legal_newline (depth : Nat) : ∀ c ∈ newline depth, isChar c := by
  intro c hc
  rcases List.mem_cons.mp hc with rfl | hc
  · decide
  · obtain rfl := List.eq_of_mem_replicate hc
    decide

mutual

/-- **The characters of the text of an element** are ones that a document may have if and only if
those of all values and texts are. -/
theorem legal_chars (depth : Nat) (e : Element) (h : e.Everywhere Named) :
    (∀ c ∈ chars depth e, isChar c) ↔ e.Everywhere IsLegal := by
  have hend : isChar '>' := by decide
  have hempty : ∀ c ∈ " />".toList, isChar c := legal_literal (by decide)
  match e with
  | .leaf tag attributes text =>
    have hnamed := everywhere_leaf.mp h
    have hopening : (∀ c ∈ opening tag attributes, isChar c) ↔ ∀ a ∈ attributes, Legal a.2 :=
      legal_opening _ hnamed
    rw [chars, everywhere_leaf, isLegal_leaf, ← hopening]
    split
    · next htext =>
      have hlegal : Legal text := by
        obtain rfl : text = "" := by simpa using htext
        decide
      rw [List.forall_mem_append]
      exact ⟨fun hall => ⟨hall.1, hlegal⟩, fun hall => ⟨hall.1, hempty⟩⟩
    · rw [List.forall_mem_append, List.forall_mem_cons, List.forall_mem_append,
        legal_escapedText]
      exact ⟨fun hall => ⟨hall.1, hall.2.2.1⟩,
        fun hall => ⟨hall.1, hend, hall.2, legal_closing hnamed.tag⟩⟩
  | .branch tag attributes [] =>
    have hopening : (∀ c ∈ opening tag attributes, isChar c) ↔ ∀ a ∈ attributes, Legal a.2 :=
      legal_opening _ (everywhere_branch.mp h).1
    rw [chars, everywhere_branch, isLegal_branch, ← hopening, List.forall_mem_append]
    exact ⟨fun hall => ⟨hall.1, fun e he => absurd he List.not_mem_nil⟩,
      fun hall => ⟨hall.1, hempty⟩⟩
  | .branch tag attributes (c :: cs) =>
    obtain ⟨hnamed, hinside⟩ := everywhere_branch.mp h
    have hopening : (∀ c ∈ opening tag attributes, isChar c) ↔ ∀ a ∈ attributes, Legal a.2 :=
      legal_opening _ hnamed
    have hchildren := legal_childChars (depth + 1) (c :: cs) hinside
    rw [chars, everywhere_branch, isLegal_branch, ← hopening, ← hchildren]
    rw [List.forall_mem_append, List.forall_mem_cons, List.forall_mem_append,
      List.forall_mem_append]
    exact ⟨fun hall => ⟨hall.1, hall.2.2.1.1⟩,
      fun hall => ⟨hall.1, hend, ⟨hall.2, legal_newline depth⟩, legal_closing hnamed.tag⟩⟩

theorem legal_childChars (depth : Nat) (es : List Element) (h : ∀ e ∈ es, e.Everywhere Named) :
    (∀ c ∈ childChars depth es, isChar c) ↔ ∀ e ∈ es, e.Everywhere IsLegal := by
  match es with
  | [] => exact iff_of_true (fun c hc => absurd hc List.not_mem_nil) fun e he =>
      absurd he List.not_mem_nil
  | e :: es =>
    obtain ⟨he, hes⟩ := List.forall_mem_cons.mp h
    have hfirst := legal_chars depth e he
    have hrest := legal_childChars depth es hes
    rw [childChars, List.forall_mem_append, List.forall_mem_append, List.forall_mem_cons, hfirst,
      hrest]
    exact ⟨fun hall => ⟨hall.1.2, hall.2⟩, fun hall => ⟨⟨legal_newline depth, hall.1⟩, hall.2⟩⟩

end

end Elements

/-! ### Numbers and paths -/

theorem legal_append {s t : String} : Legal (s ++ t) ↔ Legal s ∧ Legal t := by
  simp only [Legal, String.toList_append, List.forall_mem_append]

theorem legal_intercalate {sep : String} (hsep : Legal sep) {texts : List String}
    (h : ∀ s ∈ texts, Legal s) : Legal (sep.intercalate texts) := by
  induction texts with
  | nil => exact fun c hc => absurd hc List.not_mem_nil
  | cons s texts ih =>
    obtain ⟨hs, htexts⟩ := List.forall_mem_cons.mp h
    by_cases hnil : texts = []
    · subst hnil
      exact hs
    · rw [String.intercalate_cons_of_ne_nil hnil]
      exact legal_append.mpr ⟨legal_append.mpr ⟨hs, hsep⟩, ih htexts⟩

theorem isChar_of_figure {c : Char} (h : Decimal.IsFigureChar c) : isChar c := by
  rcases h with h | h
  · have := Decimal.isDigit_range h
    simp only [isChar, Bool.or_eq_true, Bool.and_eq_true, decide_eq_true_eq]
    omega
  · have hmarks : Decimal.figureMarks.all isChar := by decide
    exact List.all_eq_true.mp hmarks c h

theorem mem_of_mem_trimPlaces {c : Char} {cs : List Char} (h : c ∈ trimPlaces cs) : c ∈ cs := by
  have hkept : ∀ c ∈ cs.reverse.dropWhile (· == '0'), c ∈ cs := fun c hc =>
    List.mem_reverse.mp ((List.dropWhile_sublist _).mem hc)
  unfold trimPlaces at h
  dsimp only at h
  split at h
  · exact hkept c (List.mem_of_mem_drop (List.mem_reverse.mp h))
  · exact hkept c (List.mem_reverse.mp h)

theorem isFigureChar_of_mem_numberChars {negative : Bool} {mantissa : Nat} {exponent : Int}
    {c : Char} (h : c ∈ numberChars negative mantissa exponent) : Decimal.IsFigureChar c := by
  unfold numberChars at h
  dsimp only at h
  split at h
  · rcases List.mem_append.mp h with h | h
    · unfold Decimal.signChars at h
      split at h
      · exact Or.inr (List.mem_singleton.mp h ▸ by decide)
      · exact absurd h List.not_mem_nil
    · exact Or.inl (Decimal.isDigit_of_mem_natDigits h)
  · exact Decimal.isFigureChar_of_mem_fixedChars (by decide) (mem_of_mem_trimPlaces h)

/-- **A number** is written with characters that a document may have. -/
theorem legal_number (x : Float) : Legal (number x) := by
  intro c hc
  rw [number, String.toList_ofList] at hc
  cases hx : Decimal.Binary.ofFloat x with
  | nan =>
    rw [hx] at hc
    have hnan : "nan".toList.all isChar := by decide
    exact legal_literal hnan c hc
  | infinite negative =>
    have hinfinite : ∀ negative, (Decimal.fixedChars 3 (.infinite negative)).all isChar := by
      decide
    rw [hx] at hc
    exact legal_literal (hinfinite negative) c hc
  | finite negative m e =>
    rw [hx] at hc
    exact isChar_of_figure (isFigureChar_of_mem_numberChars hc)

open Scene in
theorem legal_pointsText (points : List (Point Float)) : Legal (pointsText points) := by
  refine legal_intercalate (by decide) fun s hs => ?_
  obtain ⟨p, -, hs⟩ := List.mem_flatMap.mp hs
  rcases List.mem_cons.mp hs with rfl | hs
  · exact legal_number p.x
  · exact List.mem_singleton.mp hs ▸ legal_number p.y

open Scene Stroke in
/-- **A path** is written with characters that a document may have. -/
theorem legal_pathText (path : Path Float) : Legal (pathText path) := by
  refine legal_intercalate (by decide) fun s hs => ?_
  obtain ⟨step, -, rfl⟩ := List.mem_map.mp hs
  cases step with
  | move p => exact legal_append.mpr ⟨by decide, legal_pointsText _⟩
  | line p => exact legal_append.mpr ⟨by decide, legal_pointsText _⟩
  | cubic c d p => exact legal_append.mpr ⟨by decide, legal_pointsText _⟩
  | close => decide

end Scrawl.Svg
