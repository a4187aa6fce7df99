import Scrawl.Proofs.Svg.Characters

/-!
# Scrawl.Proofs.Svg.Reading — what is read from the text of an element

What is read from the text of an element is the element with its tags, attributes and texts, and
white space between elements.  Line ends in a text are unified.

* `unifyNewlines_escapedText`: line ends can be unified before escapes are undone.
* `readFrom_chars`: an element is read, and what is behind it is left.
* `read_render`: the text of an element is a document if and only if all its values and texts are of
  characters that a document may have.
* `pruned_indented`: what is read is the element, but for the white space between elements.
-/

namespace Scrawl.Svg

open Text Xml

/-! ### Line ends -/

section LineEnds

variable {c : Char} {cs : List Char}

theorem unifyNewlines_cons (h : c ≠ '\r') (cs : List Char) :
    unifyNewlines (c :: cs) = c :: unifyNewlines cs := by
  rw [unifyNewlines]
  · simp [h]
  · rintro _ rfl
    exact absurd rfl h

theorem unifyNewlines_return (h : cs.head? ≠ some '\n') :
    unifyNewlines ('\r' :: cs) = '\n' :: unifyNewlines cs := by
  rw [unifyNewlines]
  · simp
  · rintro _ - rfl
    exact absurd rfl h

theorem unifyNewlines_ne_nil (h : cs ≠ []) : unifyNewlines cs ≠ [] := by
  obtain ⟨c, cs, rfl⟩ := List.exists_cons_of_ne_nil h
  rw [unifyNewlines.eq_def]
  split <;> simp_all

theorem unifyNewlines_append (h : '\r' ∉ cs) (rest : List Char) :
    unifyNewlines (cs ++ rest) = cs ++ unifyNewlines rest := by
  induction cs with
  | nil => rfl
  | cons c cs ih =>
    obtain ⟨hc, hcs⟩ := List.ne_and_not_mem_of_not_mem_cons h
    rw [List.cons_append, unifyNewlines_cons hc.symm, ih hcs, List.cons_append]

theorem escapedText_self (h : ∀ c ∈ cs, escapeText c = [c]) : cs.flatMap escapeText = cs := by
  induction cs with
  | nil => rfl
  | cons c cs ih =>
    obtain ⟨hc, hcs⟩ := List.forall_mem_cons.mp h
    rw [List.flatMap_cons, hc, ih hcs]
    rfl

theorem return_not_mem_escapeText (h : c ≠ '\r') : '\r' ∉ escapeText c := by
  intro hmem
  have hmem : '\r' ∈ [c].flatMap escapeText := List.mem_flatMap.mpr ⟨c, List.mem_cons_self, hmem⟩
  rcases mem_escapedText hmem with hmem | ⟨hmem, -⟩
  · exact absurd hmem (by decide)
  · exact h (List.mem_singleton.mp hmem).symm

theorem head?_escapedText (h : cs.head? ≠ some '\n') :
    (cs.flatMap escapeText).head? ≠ some '\n' := by
  cases cs with
  | nil => exact h
  | cons d ds =>
    rw [List.flatMap_cons]
    rcases escapeText_cases d with ⟨name, hescape, -⟩ | ⟨hself, -⟩
    · rw [hescape]
      exact fun hhead => absurd (Option.some.inj hhead) (by decide)
    · rw [hself]
      exact h

/-- What is behind a carriage return that no line feed follows. -/
theorem head?_ne_of_not_pair (h : ∀ rest, '\r' = '\r' → cs = '\n' :: rest → False) :
    cs.head? ≠ some '\n' := fun hhead => by
  obtain ⟨ds, rfl⟩ := List.head?_eq_some_iff.mp hhead
  exact h ds rfl rfl

/-- Line ends are unified on both sides of a character that is no part of one. -/
theorem unifyNewlines_append_cons (h : c ≠ '\n') (cs rest : List Char) :
    unifyNewlines (cs ++ c :: rest) = unifyNewlines cs ++ unifyNewlines (c :: rest) := by
  fun_induction unifyNewlines cs with
  | case1 => rfl
  | case2 cs ih =>
    show '\n' :: unifyNewlines (cs ++ c :: rest) = _
    rw [ih]
    rfl
  | case3 d cs hpair ih =>
    by_cases hd : d = '\r'
    · subst hd
      have hhead : (cs ++ c :: rest).head? ≠ some '\n' := by
        cases cs with
        | nil => exact fun hhead => h (Option.some.inj hhead)
        | cons d ds =>
          show (d :: ds).head? ≠ some '\n'
          exact head?_ne_of_not_pair hpair
      rw [List.cons_append, unifyNewlines_return hhead, ih]
      rfl
    · rw [List.cons_append, unifyNewlines_cons hd, ih, if_neg (by simpa using hd), List.cons_append]

/-- Escapes do not touch line ends. -/
theorem unifyNewlines_escapedText (cs : List Char) :
    unifyNewlines (cs.flatMap escapeText) = (unifyNewlines cs).flatMap escapeText := by
  fun_induction unifyNewlines cs with
  | case1 => rfl
  | case2 cs ih =>
    show '\n' :: unifyNewlines (cs.flatMap escapeText) = _
    rw [ih]
    rfl
  | case3 c cs hpair ih =>
    by_cases hc : c = '\r'
    · subst hc
      show unifyNewlines ('\r' :: cs.flatMap escapeText) = _
      rw [unifyNewlines_return (head?_escapedText (head?_ne_of_not_pair hpair)), ih]
      rfl
    · rw [if_neg (by simpa using hc), List.flatMap_cons, List.flatMap_cons,
        unifyNewlines_append (return_not_mem_escapeText hc), ih]

end LineEnds

/-! ### Elements -/

/-- A text as it is read: its line ends are unified. -/
def unified (s : String) : String := String.ofList (unifyNewlines s.toList)

namespace Element

mutual

/-- What is read from the text of an element at a depth. -/
def indented (depth : Nat) : Element → Xml.Node
  | leaf tag attributes text =>
    .element ⟨tag, attributes⟩ (if text.isEmpty then [] else [.text (unified text)])
  | branch tag attributes [] => .element ⟨tag, attributes⟩ []
  | branch tag attributes (c :: cs) =>
    .element ⟨tag, attributes⟩
      (indentedOf (depth + 1) (c :: cs) ++ [.text (String.ofList (newline depth))])

/-- What is read from the texts of elements at a depth. -/
def indentedOf (depth : Nat) : List Element → List Xml.Node
  | [] => []
  | c :: cs => .text (String.ofList (newline depth)) :: indented depth c :: indentedOf depth cs

end

end Element

section Elements

variable {frames : List Frame} {f : Frame} {tag : String} {attributes : Attributes}

/-- Reads on with open elements. -/
def readFrom (frames : List Frame) (cs : List Char) : Option Xml.Node :=
  (tokens cs).bind fun ts => (ts.foldlM take frames).bind root?

theorem readFrom_token {cs rest : List Char} {t : Token} {frames' : List Frame}
    (h : token? cs = some (t, rest)) (htake : take frames t = some frames') :
    readFrom frames cs = readFrom frames' rest := by
  have htokens : tokens cs = (tokens rest).map (t :: ·) := by
    cases cs with
    | nil => cases h
    | cons c cs =>
      rw [tokens.eq_def]
      dsimp only
      split
      · next heq =>
        rw [h] at heq
        cases heq
      · next heq =>
        rw [h] at heq
        cases heq
        rfl
  rw [readFrom, htokens, readFrom]
  cases tokens rest with
  | none => rfl
  | some ts =>
    show ((t :: ts).foldlM take frames).bind root? = (ts.foldlM take frames').bind root?
    rw [List.foldlM_cons, htake]
    rfl

theorem return_not_mem_name (h : isName tag) : '\r' ∉ tag.toList := by
  obtain ⟨c, cs, hname, hc, hcs⟩ := exists_of_isName h
  rw [hname]
  intro hmem
  rcases List.mem_cons.mp hmem with rfl | hmem
  · exact absurd hc (by decide)
  · exact absurd (hcs _ hmem) (by decide)

theorem return_not_mem_opening (htag : isName tag) (hnames : ∀ a ∈ attributes, isName a.1) :
    '\r' ∉ Element.opening tag attributes := by
  intro hmem
  rw [opening_eq] at hmem
  rcases List.mem_cons.mp hmem with hmem | hmem
  · exact absurd hmem (by decide)
  rcases List.mem_append.mp hmem with hmem | hmem
  · exact return_not_mem_name htag hmem
  obtain ⟨⟨name, value⟩, ha, hmem⟩ := List.mem_flatMap.mp hmem
  have hvalue : '\r' ∉ value.toList.flatMap escapeValue := fun hmem => by
    rcases mem_escapedValue hmem with hmem | ⟨-, -, hspace⟩
    · exact absurd hmem (by decide)
    · exact absurd (hspace rfl) (by decide)
  rcases List.mem_append.mp hmem with hmem | hmem
  · rcases List.mem_append.mp hmem with hmem | hmem
    · rcases List.mem_cons.mp hmem with hmem | hmem
      · exact absurd hmem (by decide)
      · rcases List.mem_append.mp hmem with hmem | hmem
        · exact return_not_mem_name (hnames _ ha) hmem
        · exact absurd hmem (by decide)
    · exact hvalue hmem
  · exact absurd hmem (by decide)

theorem readFrom_opening (e : Element) (h : e.Named) (rest : List Char) :
    readFrom frames (unifyNewlines (Element.opening e.tag e.attributes ++ '>' :: rest)) =
      readFrom (⟨⟨e.tag, e.attributes⟩, []⟩ :: frames) (unifyNewlines rest) := by
  rw [unifyNewlines_append (return_not_mem_opening h.tag h.names)]
  exact readFrom_token (token?_opening h.tag h.names h.nodup _) rfl

theorem readFrom_empty (e : Element) (h : e.Named) (rest : List Char) :
    readFrom (f :: frames)
        (unifyNewlines (Element.opening e.tag e.attributes ++ (" />".toList ++ rest))) =
      readFrom (f.add (.element ⟨e.tag, e.attributes⟩ []) :: frames) (unifyNewlines rest) := by
  rw [unifyNewlines_append (return_not_mem_opening h.tag h.names)]
  exact readFrom_token (token?_empty h.tag h.names h.nodup _) rfl

theorem readFrom_closing (h : isName tag) (outer : Frame) (children : List Xml.Node)
    (rest : List Char) :
    readFrom (⟨⟨tag, attributes⟩, children⟩ :: outer :: frames)
        (unifyNewlines (Element.closing tag ++ rest)) =
      readFrom (outer.add (.element ⟨tag, attributes⟩ children.reverse) :: frames)
        (unifyNewlines rest) := by
  have hreturn : '\r' ∉ Element.closing tag := by
    simpa [Element.closing] using return_not_mem_name h
  rw [unifyNewlines_append hreturn]
  exact readFrom_token (token?_closing h _) (if_pos (beq_self_eq_true tag))

theorem readFrom_text {text : String} (hne : text ≠ "") (rest : List Char) :
    readFrom (f :: frames) (unifyNewlines (text.toList.flatMap escapeText ++ '<' :: rest)) =
      readFrom (f.add (.text (unified text)) :: frames) (unifyNewlines ('<' :: rest)) := by
  have hunified : unifyNewlines text.toList ≠ [] := unifyNewlines_ne_nil (by simpa using hne)
  rw [unifyNewlines_append_cons (by decide), unifyNewlines_escapedText,
    unifyNewlines_cons (by decide)]
  exact readFrom_token (token?_text hunified _) rfl

/-- The white space in front of an element at a depth. -/
theorem readFrom_newline (depth : Nat) (rest : List Char) :
    readFrom (f :: frames) (unifyNewlines (Element.newline depth ++ '<' :: rest)) =
      readFrom (f.add (.text (String.ofList (Element.newline depth))) :: frames)
        (unifyNewlines ('<' :: rest)) := by
  have hspaces : ∀ c ∈ Element.newline depth, escapeText c = [c] ∧ c ≠ '\r' := by
    intro c hc
    rcases List.mem_cons.mp hc with rfl | hc
    · decide
    · obtain rfl := List.eq_of_mem_replicate hc
      decide
  have hself : (Element.newline depth).flatMap escapeText = Element.newline depth :=
    escapedText_self fun c hc => (hspaces c hc).1
  have hunified : unified (String.ofList (Element.newline depth)) =
      String.ofList (Element.newline depth) := by
    have happend := unifyNewlines_append (fun hc => (hspaces _ hc).2 rfl) []
    rw [List.append_nil] at happend
    rw [unified, String.toList_ofList, happend]
    exact congrArg String.ofList (List.append_nil _)
  have hne : String.ofList (Element.newline depth) ≠ "" := by simp [Element.newline]
  have hread := @readFrom_text frames f _ hne rest
  rwa [String.toList_ofList, hself, hunified] at hread

theorem chars_eq_cons (depth : Nat) (e : Element) : ∃ cs, Element.chars depth e = '<' :: cs := by
  cases e with
  | leaf tag attributes text =>
    rw [Element.chars]
    split <;> exact ⟨_, rfl⟩
  | branch tag attributes children =>
    cases children <;> exact ⟨_, rfl⟩

open Element in
mutual

/-- An element is read, and it is one more inside the innermost element that is open. -/
theorem readFrom_chars (depth : Nat) (e : Element) (h : e.Everywhere Named) (f : Frame)
    (frames : List Frame) (rest : List Char) :
    readFrom (f :: frames) (unifyNewlines (chars depth e ++ rest)) =
      readFrom (f.add (indented depth e) :: frames) (unifyNewlines rest) := by
  match e with
  | .leaf tag attributes text =>
    have hnamed := everywhere_leaf.mp h
    rw [chars, indented]
    split
    · rw [List.append_assoc]
      exact readFrom_empty _ hnamed rest
    · next htext =>
      have hsplit : opening tag attributes ++
            '>' :: (text.toList.flatMap escapeText ++ closing tag) ++ rest =
          opening tag attributes ++ '>' :: (text.toList.flatMap escapeText ++
            '<' :: '/' :: (tag.toList ++ ['>'] ++ rest)) := by
        simp [closing]
      have hopen := @readFrom_opening (f :: frames) _ hnamed (text.toList.flatMap escapeText ++
        '<' :: '/' :: (tag.toList ++ ['>'] ++ rest))
      rw [hsplit]
      refine hopen.trans ?_
      rw [readFrom_text (by simpa using htext)]
      exact readFrom_closing hnamed.tag f _ rest
  | .branch tag attributes [] =>
    rw [chars, indented, List.append_assoc]
    exact readFrom_empty _ (everywhere_branch.mp h).1 rest
  | .branch tag attributes (c :: cs) =>
    obtain ⟨hnamed, hinside⟩ := everywhere_branch.mp h
    have hsplit : chars depth (.branch tag attributes (c :: cs)) ++ rest =
        opening tag attributes ++ '>' :: (childChars (depth + 1) (c :: cs) ++
          (newline depth ++ '<' :: '/' :: (tag.toList ++ ['>'] ++ rest))) := by
      simp [chars, closing]
    have hopen := @readFrom_opening (f :: frames) _ hnamed (childChars (depth + 1) (c :: cs) ++
      (newline depth ++ '<' :: '/' :: (tag.toList ++ ['>'] ++ rest)))
    have hclose := @readFrom_closing frames tag attributes hnamed.tag f
      (.text (String.ofList (newline depth)) :: (indentedOf (depth + 1) (c :: cs)).reverse) rest
    rw [List.reverse_cons, List.reverse_reverse] at hclose
    have hinner : ∀ rest, readFrom (⟨⟨tag, attributes⟩, []⟩ :: f :: frames)
          (unifyNewlines (childChars (depth + 1) (c :: cs) ++ rest)) =
        readFrom (⟨⟨tag, attributes⟩, (indentedOf (depth + 1) (c :: cs)).reverse⟩ :: f :: frames)
          (unifyNewlines rest) := by
      intro rest
      rw [readFrom_childChars (depth + 1) (c :: cs) hinside, List.append_nil]
    rw [hsplit, indented]
    refine hopen.trans ((hinner _).trans ?_)
    rw [readFrom_newline]
    exact hclose

/-- Elements are read one after the other, with the white space before each. -/
theorem readFrom_childChars (depth : Nat) (es : List Element) (h : ∀ e ∈ es, e.Everywhere Named)
    (f : Frame) (frames : List Frame) (rest : List Char) :
    readFrom (f :: frames) (unifyNewlines (childChars depth es ++ rest)) =
      readFrom (⟨f.tag, (indentedOf depth es).reverse ++ f.children⟩ :: frames)
        (unifyNewlines rest) := by
  match es with
  | [] => rfl
  | e :: es =>
    obtain ⟨he, hes⟩ := List.forall_mem_cons.mp h
    obtain ⟨more, hmore⟩ := chars_eq_cons depth e
    have hsplit : childChars depth (e :: es) ++ rest =
        newline depth ++ '<' :: (more ++ (childChars depth es ++ rest)) := by
      simp [childChars, hmore]
    have hchars : '<' :: (more ++ (childChars depth es ++ rest)) =
        chars depth e ++ (childChars depth es ++ rest) := by
      rw [hmore, List.cons_append]
    rw [hsplit, readFrom_newline, hchars, readFrom_chars depth e he,
      readFrom_childChars depth es hes]
    simp [indentedOf, Frame.add]

end

end Elements

/-! ### Documents -/

section Documents

variable {e : Element}

/-- Unifying line ends changes nothing about which characters there are. -/
theorem legal_unifyNewlines (cs : List Char) :
    (∀ c ∈ unifyNewlines cs, isChar c) ↔ ∀ c ∈ cs, isChar c := by
  have hfeed : isChar '\n' := by decide
  have hreturn : isChar '\r' := by decide
  fun_induction unifyNewlines cs with
  | case1 => exact Iff.rfl
  | case2 cs ih =>
    rw [List.forall_mem_cons, List.forall_mem_cons, List.forall_mem_cons]
    exact ⟨fun h => ⟨hreturn, hfeed, ih.mp h.2⟩, fun h => ⟨hfeed, ih.mpr h.2.2⟩⟩
  | case3 c cs _ ih =>
    rw [List.forall_mem_cons, List.forall_mem_cons]
    refine and_congr ?_ ih
    by_cases hc : c = '\r'
    · subst hc
      exact iff_of_true hfeed hreturn
    · rw [if_neg (by simpa using hc)]

theorem chars_eq_concat (depth : Nat) (e : Element) :
    ∃ cs, Element.chars depth e = cs ++ ['>'] := by
  cases e with
  | leaf tag attributes text =>
    rw [Element.chars]
    split
    · exact ⟨Element.opening tag attributes ++ [' ', '/'], by simp⟩
    · exact ⟨Element.opening tag attributes ++ '>' :: (text.toList.flatMap escapeText ++
        ("</".toList ++ tag.toList)), by simp [Element.closing]⟩
  | branch tag attributes children =>
    cases children with
    | nil => exact ⟨Element.opening tag attributes ++ [' ', '/'], by simp [Element.chars]⟩
    | cons c cs =>
      exact ⟨Element.opening tag attributes ++ '>' :: (Element.childChars (depth + 1) (c :: cs) ++
        Element.newline depth ++ ("</".toList ++ tag.toList)), by
          simp [Element.chars, Element.closing]⟩

/-- Nothing is in front of an element or behind it. -/
theorem stripChars_chars (e : Element) :
    stripChars isSpace (unifyNewlines (Element.chars 0 e)) = unifyNewlines (Element.chars 0 e) := by
  obtain ⟨cs, hcs⟩ := chars_eq_cons 0 e
  obtain ⟨init, hinit⟩ := chars_eq_concat 0 e
  refine stripChars_of_ends ?_ ?_
  · rw [hcs, unifyNewlines_cons (by decide)]
    exact fun c hc => Option.some.inj hc ▸ by decide
  · have hlast : unifyNewlines (Element.chars 0 e) = unifyNewlines init ++ ['>'] := by
      rw [hinit]
      exact unifyNewlines_append_cons (by decide) init []
    rw [hlast, List.getLast?_concat]
    exact fun c hc => Option.some.inj hc ▸ by decide

/-- What is read of a whole document is one element. -/
theorem readFrom_document (h : e.Everywhere Element.Named) :
    readFrom [documentFrame] (unifyNewlines (Element.chars 0 e)) = some (e.indented 0) := by
  have hread := readFrom_chars 0 e h documentFrame [] []
  rw [List.append_nil] at hread
  have hroot : ∃ tag children, e.indented 0 = .element tag children := by
    cases e with
    | leaf tag attributes text => exact ⟨_, _, rfl⟩
    | branch tag attributes children => cases children <;> exact ⟨_, _, rfl⟩
  obtain ⟨tag, children, hroot⟩ := hroot
  have htokens : tokens (unifyNewlines []) = some [] := by
    rw [unifyNewlines, tokens.eq_def]
  rw [hread, hroot, readFrom, htokens]
  rfl

/-- **The text of an element is a document** if and only if its values and texts are of characters
that a document may have, and then the element is what is read. -/
theorem read_render (h : e.Everywhere Element.Named) :
    (e.Everywhere Element.IsLegal → Xml.read e.render = some (e.indented 0)) ∧
      (¬ e.Everywhere Element.IsLegal → Xml.read e.render = none) := by
  have hlegal : (unifyNewlines (Element.chars 0 e)).all isChar ↔ e.Everywhere Element.IsLegal := by
    rw [List.all_eq_true, legal_unifyNewlines, legal_chars 0 e h]
  have hread := readFrom_document h
  rw [Xml.read, Element.render, String.toList_ofList]
  constructor
  · intro hall
    rw [if_pos (hlegal.mpr hall), stripChars_chars]
    exact hread
  · intro hall
    rw [if_neg (mt hlegal.mp hall)]

end Documents

namespace Element

mutual

/-- The element as a node of a document, with no white space between elements. -/
def tree : Element → Xml.Node
  | leaf tag attributes text =>
    .element ⟨tag, attributes⟩ (if text.isEmpty then [] else [.text text])
  | branch tag attributes children => .element ⟨tag, attributes⟩ (treeOf children)

/-- Elements as nodes of a document. -/
def treeOf : List Element → List Xml.Node
  | [] => []
  | c :: cs => tree c :: treeOf cs

end

end Element

theorem prunedOf_eq_map (nodes : List Xml.Node) :
    Xml.Node.prunedOf nodes = nodes.map Xml.Node.pruned := by
  induction nodes with
  | nil => rfl
  | cons n nodes ih => rw [Xml.Node.prunedOf, ih, List.map_cons]

theorem isGap_newline (depth : Nat) :
    (Xml.Node.text (String.ofList (Element.newline depth))).isGap = true := by
  rw [Xml.Node.isGap, String.toList_ofList, Element.newline]
  simp [isSpace]

theorem isElement_tree (e : Element) : e.tree.isElement = true ∧ e.tree.isGap = false := by
  cases e <;> exact ⟨rfl, rfl⟩

/-- No text of the element has a carriage return. -/
def Element.NoReturn (e : Element) : Prop := ∀ text ∈ e.text?, '\r' ∉ text.toList

open Element in
mutual

/-- **What is read is the element**, but for the white space between elements. -/
theorem pruned_indented (depth : Nat) (e : Element) (h : e.Everywhere NoReturn) :
    (indented depth e).pruned = tree e := by
  match e with
  | .leaf tag attributes text =>
    have hreturn : '\r' ∉ text.toList := everywhere_leaf.mp h text rfl
    have hunified : unified text = text := by
      have happend := unifyNewlines_append hreturn []
      rw [List.append_nil] at happend
      rw [unified, happend]
      simp [unifyNewlines]
    rw [indented, tree, hunified]
    split <;> rfl
  | .branch tag attributes [] => rfl
  | .branch tag attributes (c :: cs) =>
    obtain ⟨-, hinside⟩ := everywhere_branch.mp h
    have hchildren := prunedOf_indentedOf (depth + 1) (c :: cs) hinside
    have hfirst := pruned_indented (depth + 1) c (hinside c List.mem_cons_self)
    have hany : (Xml.Node.prunedOf (indentedOf (depth + 1) (c :: cs) ++
        [.text (String.ofList (newline depth))])).any Xml.Node.isElement = true := by
      rw [prunedOf_eq_map, indentedOf]
      simp [hfirst, (isElement_tree c).1]
    have hlast : ([Xml.Node.text (String.ofList (newline depth))].map Xml.Node.pruned).filter
        (!·.isGap) = [] := by
      simp [Xml.Node.pruned, isGap_newline]
    rw [indented, Xml.Node.pruned, Xml.Node.closeGaps, if_pos hany, prunedOf_eq_map,
      List.map_append, List.filter_append, hlast, List.append_nil, ← prunedOf_eq_map, hchildren,
      tree]

theorem prunedOf_indentedOf (depth : Nat) (es : List Element)
    (h : ∀ e ∈ es, e.Everywhere NoReturn) :
    (Xml.Node.prunedOf (indentedOf depth es)).filter (!·.isGap) = treeOf es := by
  match es with
  | [] => rfl
  | e :: es =>
    obtain ⟨he, hes⟩ := List.forall_mem_cons.mp h
    rw [indentedOf, Xml.Node.prunedOf, Xml.Node.prunedOf, pruned_indented depth e he,
      Xml.Node.pruned, List.filter_cons_of_neg (by simp [isGap_newline]),
      List.filter_cons_of_pos (by simp [(isElement_tree e).2]), prunedOf_indentedOf depth es hes,
      treeOf]

end

end Scrawl.Svg
