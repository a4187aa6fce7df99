import Scrawl.Proofs.Description.Acceptance
import Scrawl.Proofs.Description.Lexing

/-!
# Scrawl.Proofs.Graphviz.Printing — statements that are printed line by line

A line is a list of settings, a node or an edge; ids and values stand between double quotes.  The
text of lines has the lexemes of the lines, whatever the ids and values are, and tokens with these
lexemes are a sentence with the statements of the lines.

* `Prints`: a text with the lexemes, wherever it stands; `prints_list`, `prints_line`.
* `prints_describe`: the lexemes of a whole text of lines.
* `statement_of_lexemes`, `sentence_of_lexemes`: what tokens with these lexemes say.
-/

namespace Scrawl.Graphviz

open Description

/-! ### Lines -/

/-- What settings are for. -/
inductive Scope
  | graph
  | nodes
  | edges

/-- The keyword that settings begin with. -/
def Scope.keyword : Scope → Keyword
  | graph => .graph
  | nodes => .node
  | edges => .edge

/-- A statement as it is printed. -/
inductive Line
  | settings (scope : Scope) (attributes : Attributes)
  | node (id : String) (attributes : Attributes)
  | edge (source target : String)

/-- The characters of an attribute. -/
def attributeChars (a : String × String) : List Char :=
  a.1.toList ++ '=' :: (quoteId a.2).toList

/-- The characters of a list of attributes. -/
def listChars : Attributes → List Char
  | [] => ['[', ']']
  | a :: as =>
    '[' :: (attributeChars a ++ (as.flatMap (fun b => ',' :: ' ' :: attributeChars b) ++ [']']))

/-- The lexemes of an attribute. -/
def attributeLexemes (a : String × String) : List Lexeme := [.name a.1, .mark .equals, .quoted a.2]

/-- The lexemes of a list of attributes. -/
def listLexemes : Attributes → List Lexeme
  | [] => [.mark .openBracket, .mark .closeBracket]
  | a :: as => .mark .openBracket :: (attributeLexemes a ++
      (as.flatMap (fun b => .mark .comma :: attributeLexemes b) ++ [.mark .closeBracket]))

namespace Line

/-- The characters of a line. -/
def chars : Line → List Char
  | settings scope as => scope.keyword.word.toList ++ ' ' :: listChars as
  | node id as => (quoteId id).toList ++ ' ' :: listChars as
  | edge s t => (quoteId s).toList ++ ' ' :: '-' :: '>' :: ' ' :: (quoteId t).toList

/-- The lexemes of a line. -/
def lexemes : Line → List Lexeme
  | settings scope as => .keyword scope.keyword :: listLexemes as
  | node id as => .quoted id :: listLexemes as
  | edge s t => [.quoted s, .arrow, .quoted t]

/-- The attributes in a line. -/
def attributes : Line → Attributes
  | settings _ as => as
  | node _ as => as
  | edge _ _ => []

end Line

/-- Lines as a description of the name. -/
def describe (name : String) (lines : List Line) : List Char :=
  "digraph ".toList ++ (name.toList ++ (' ' :: '\x7b' ::
    (lines.flatMap (fun l => "\n  ".toList ++ (l.chars ++ [';'])) ++ "\n\x7d".toList)))

/-! ### Texts that end with their last lexeme -/

/-- The text has the lexemes, whatever follows it. -/
def Prints (cs : List Char) (ls : List Lexeme) : Prop := ∀ rest, Lexes (cs ++ rest) ls rest

/-- The text begins with a character that is not among those of `p`. -/
def StartsOff (p : Char → Bool) (cs : List Char) : Prop := ∃ c ds, cs = c :: ds ∧ p c = false

/-- Whether a text is a name and no keyword: a letter and what a name may go on with. -/
def isName (s : String) : Bool :=
  match s.toList with
  | [] => false
  | c :: cs => c.isAlpha && cs.all isNamePart && nameLexeme (c :: cs) == .name s

theorem exists_of_isName {s : String} (h : isName s) : ∃ c cs, s.toList = c :: cs ∧ c.isAlpha ∧
    (∀ d ∈ cs, isNamePart d) ∧ nameLexeme (c :: cs) = .name s := by
  unfold isName at h
  split at h
  · cases h
  · next c cs hchars =>
    simp only [Bool.and_eq_true, List.all_eq_true, beq_iff_eq] at h
    exact ⟨c, cs, hchars, h.1.1, h.1.2, h.2⟩

section Prints

variable {cs ds : List Char} {ls ls' : List Lexeme}

theorem StartsOff.ends {p : Char → Bool} (h : StartsOff p cs) (rest : List Char) :
    Text.Ends p (cs ++ rest) := by
  obtain ⟨c, ds, rfl, hc⟩ := h
  intro d hd
  obtain rfl : c = d := by simpa using hd
  exact hc

theorem prints_nil : Prints [] [] := fun _ => .done

theorem Prints.append (h : Prints cs ls) (h' : Prints ds ls') :
    Prints (cs ++ ds) (ls ++ ls') := fun rest => by
  rw [List.append_assoc]
  exact (h (ds ++ rest)).append (h' rest)

theorem prints_mark (m : Mark) : Prints [m.char] [.mark m] := fun rest => lexes_mark m rest

theorem prints_quoteId (id : String) : Prints (quoteId id).toList [.quoted id] :=
  lexes_quoteId id

/-- Blanks may stand in front of what does not begin with one. -/
theorem Prints.blanks (h : Prints cs ls) (hs : StartsOff Text.isBlank cs) {bs : List Char}
    (hb : ∀ b ∈ bs, Text.isBlank b) : Prints (bs ++ cs) ls := fun rest => by
  rw [List.append_assoc]
  exact (lexes_blanks hb (hs.ends rest)).append (h rest)

theorem Prints.space (h : Prints cs ls) (hs : StartsOff Text.isBlank cs) :
    Prints (' ' :: cs) ls :=
  h.blanks hs (List.forall_mem_singleton.mpr rfl)

/-- A word may stand in front of what no name goes on with. -/
theorem Prints.word (h : Prints cs ls) (hs : StartsOff isNamePart cs) {c : Char} (hc : c.isAlpha)
    {ds : List Char} (hd : ∀ d ∈ ds, isNamePart d) :
    Prints (c :: ds ++ cs) (nameLexeme (c :: ds) :: ls) := fun rest => by
  rw [List.append_assoc]
  exact (lexes_word hc hd (hs.ends rest)).append (h rest)

theorem Prints.name (h : Prints cs ls) (hs : StartsOff isNamePart cs) {s : String}
    (hn : isName s) : Prints (s.toList ++ cs) (.name s :: ls) := by
  obtain ⟨c, ds, hchars, hc, hd, hlexeme⟩ := exists_of_isName hn
  rw [hchars, ← hlexeme]
  exact h.word hs hc hd

theorem Prints.keyword (h : Prints cs ls) (hs : StartsOff isNamePart cs) (k : Keyword) :
    Prints (k.word.toList ++ cs) (.keyword k :: ls) := by
  obtain ⟨c, ds, hchars, hc, hd, hlexeme⟩ : ∃ c ds, k.word.toList = c :: ds ∧ c.isAlpha = true ∧
      (∀ d ∈ ds, isNamePart d = true) ∧ nameLexeme (c :: ds) = .keyword k := by
    cases k <;> exact ⟨_, _, rfl, by decide, List.all_eq_true.mp (by decide), by decide⟩
  rw [hchars, ← hlexeme]
  exact h.word hs hc hd

/-! ### Attributes and lines -/

theorem startsOff_quoteId (p : Char → Bool) (hp : p '"' = false) (id : String) :
    StartsOff p (quoteId id).toList :=
  ⟨_, _, Text.toList_quoteId id, hp⟩

theorem prints_attribute {a : String × String} (h : isName a.1) :
    Prints (attributeChars a) (attributeLexemes a) := by
  have hvalue : Prints ('=' :: (quoteId a.2).toList) [.mark .equals, .quoted a.2] :=
    (prints_mark .equals).append (prints_quoteId a.2)
  exact hvalue.name ⟨_, _, rfl, by decide⟩ h

theorem startsOff_attribute {a : String × String} (h : isName a.1) :
    StartsOff Text.isBlank (attributeChars a) := by
  obtain ⟨c, ds, hchars, hc, -⟩ := exists_of_isName h
  exact ⟨c, _, by rw [attributeChars, hchars]; rfl, isBlank_of_letter hc⟩

theorem prints_attributes {as : Attributes} (h : ∀ a ∈ as, isName a.1) :
    Prints (as.flatMap fun b => ',' :: ' ' :: attributeChars b)
      (as.flatMap fun b => .mark .comma :: attributeLexemes b) := by
  induction as with
  | nil => exact prints_nil
  | cons a as ih =>
    obtain ⟨ha, has⟩ := List.forall_mem_cons.mp h
    have hitem : Prints (',' :: ' ' :: attributeChars a) (.mark .comma :: attributeLexemes a) :=
      (prints_mark .comma).append ((prints_attribute ha).space (startsOff_attribute ha))
    exact hitem.append (ih has)

theorem prints_list {as : Attributes} (h : ∀ a ∈ as, isName a.1) :
    Prints (listChars as) (listLexemes as) := by
  cases as with
  | nil => exact (prints_mark .openBracket).append (prints_mark .closeBracket)
  | cons a as =>
    obtain ⟨ha, has⟩ := List.forall_mem_cons.mp h
    exact (prints_mark .openBracket).append ((prints_attribute ha).append
      ((prints_attributes has).append (prints_mark .closeBracket)))

theorem startsOff_list (as : Attributes) : StartsOff Text.isBlank (listChars as) := by
  cases as <;> exact ⟨_, _, rfl, by decide⟩

/-- **A line has its lexemes, whatever follows.** -/
theorem prints_line {l : Line} (h : ∀ a ∈ l.attributes, isName a.1) :
    Prints l.chars l.lexemes := by
  cases l with
  | settings scope as =>
    exact ((prints_list h).space (startsOff_list as)).keyword ⟨_, _, rfl, by decide⟩ scope.keyword
  | node id as =>
    exact (prints_quoteId id).append ((prints_list h).space (startsOff_list as))
  | edge s t =>
    have htarget : Prints (' ' :: (quoteId t).toList) [.quoted t] :=
      (prints_quoteId t).space (startsOff_quoteId _ rfl t)
    have harrow : Prints ('-' :: '>' :: ' ' :: (quoteId t).toList) [.arrow, .quoted t] :=
      fun rest => (lexes_arrow _).append (htarget rest)
    exact (prints_quoteId s).append (harrow.space ⟨_, _, rfl, by decide⟩)

theorem startsOff_line (l : Line) : StartsOff Text.isBlank l.chars := by
  cases l with
  | settings scope as => cases scope <;> exact ⟨_, _, rfl, by decide⟩
  | node id as => exact ⟨_, _, by rw [Line.chars, Text.toList_quoteId]; rfl, by decide⟩
  | edge s t => exact ⟨_, _, by rw [Line.chars, Text.toList_quoteId]; rfl, by decide⟩

/-- The lexemes of a whole description. -/
def describeLexemes (name : String) (lines : List Line) : List Lexeme :=
  .keyword .digraph :: .name name :: .mark .openBrace ::
    (lines.flatMap (fun l => l.lexemes ++ [.mark .semicolon]) ++ [.mark .closeBrace])

theorem prints_lines {lines : List Line} (h : ∀ l ∈ lines, ∀ a ∈ l.attributes, isName a.1) :
    Prints (lines.flatMap fun l => "\n  ".toList ++ (l.chars ++ [';']))
      (lines.flatMap fun l => l.lexemes ++ [.mark .semicolon]) := by
  induction lines with
  | nil => exact prints_nil
  | cons l lines ih =>
    obtain ⟨hl, hlines⟩ := List.forall_mem_cons.mp h
    have hline : Prints (l.chars ++ [';']) (l.lexemes ++ [.mark .semicolon]) :=
      (prints_line hl).append (prints_mark .semicolon)
    obtain ⟨c, cs, hchars, hc⟩ := startsOff_line l
    have hstart : StartsOff Text.isBlank (l.chars ++ [';']) :=
      ⟨c, cs ++ [';'], by rw [hchars]; rfl, hc⟩
    exact (hline.blanks hstart (List.all_eq_true.mp (by decide))).append (ih hlines)

/-- **A text of lines has the lexemes of the lines.** -/
theorem prints_describe {name : String} (hname : isName name) {lines : List Line}
    (h : ∀ l ∈ lines, ∀ a ∈ l.attributes, isName a.1) :
    Prints (describe name lines) (describeLexemes name lines) := by
  have hblank : ∀ b ∈ ['\n'], Text.isBlank b := List.forall_mem_singleton.mpr rfl
  have hend : Prints "\n\x7d".toList [.mark .closeBrace] :=
    (prints_mark .closeBrace).blanks ⟨_, _, rfl, by decide⟩ hblank
  have hbody := (prints_mark .openBrace).append ((prints_lines h).append hend)
  have hnamed := (hbody.space ⟨_, _, rfl, by decide⟩).name ⟨_, _, rfl, by decide⟩ hname
  obtain ⟨c, cs, hchars, hc, -⟩ := exists_of_isName hname
  have hstart : StartsOff Text.isBlank (name.toList ++ (' ' :: '\x7b' ::
      (lines.flatMap (fun l => "\n  ".toList ++ (l.chars ++ [';'])) ++ "\n\x7d".toList))) :=
    ⟨c, _, by rw [hchars]; rfl, isBlank_of_letter hc⟩
  exact (hnamed.space hstart).keyword ⟨_, _, rfl, by decide⟩ .digraph

end Prints

/-! ### What the lexemes say -/

/-- The statement of a line; settings of the graph are reported at any token. -/
inductive Line.Says : Line → Statement → Prop
  | graph (as : Attributes) (place : Token) :
      Says (.settings .graph as) (.graphAttributes as place)
  | nodes (as : Attributes) : Says (.settings .nodes as) (.nodeDefaults as)
  | edges (as : Attributes) : Says (.settings .edges as) (.edgeDefaults as)
  | node (id : String) (as : Attributes) : Says (.node id as) (.node id as)
  | edge (s t : String) : Says (.edge s t) (.chain s [t])

section Tokens

variable {ts : List Token}

theorem pair_of_lexemes {a : String × String} (h : ts.map (·.lexeme) = attributeLexemes a) :
    Pair ts a := by
  obtain ⟨k, ts, rfl, hk, h⟩ := List.map_eq_cons_iff.mp h
  obtain ⟨e, ts, rfl, he, h⟩ := List.map_eq_cons_iff.mp h
  obtain ⟨v, ts, rfl, hv, h⟩ := List.map_eq_cons_iff.mp h
  obtain rfl := List.map_eq_nil_iff.mp h
  exact .mk (congrArg Lexeme.id? hk) (isMark_iff.mpr he) (congrArg Lexeme.id? hv)

theorem series_of_lexemes {a : String × String} {as : Attributes}
    (h : ts.map (·.lexeme) = attributeLexemes a ++
      as.flatMap fun b => .mark .comma :: attributeLexemes b) :
    Series IsSeparator Pair ts (a :: as) := by
  induction as generalizing ts a with
  | nil =>
    rw [List.flatMap_nil, List.append_nil] at h
    exact .one (pair_of_lexemes h)
  | cons b as ih =>
    rw [List.flatMap_cons, List.cons_append] at h
    obtain ⟨us, vs, rfl, hu, hv⟩ := List.map_eq_append_iff.mp h
    obtain ⟨t, vs, rfl, ht, hv⟩ := List.map_eq_cons_iff.mp hv
    exact .more (pair_of_lexemes hu) (Or.inl (isMark_iff.mpr ht)) (ih hv)

theorem attributeList_of_lexemes {as : Attributes} (h : ts.map (·.lexeme) = listLexemes as) :
    AttributeList ts as := by
  cases as with
  | nil =>
    obtain ⟨o, ts, rfl, ho, h⟩ := List.map_eq_cons_iff.mp h
    obtain ⟨c, ts, rfl, hc, h⟩ := List.map_eq_cons_iff.mp h
    obtain rfl := List.map_eq_nil_iff.mp h
    have hempty : Body IsSeparator Pair [] [] := .empty
    have hlist := AttributeList.mk (isMark_iff.mpr ho) hempty (isMark_iff.mpr hc)
    exact hlist
  | cons a as =>
    rw [listLexemes, ← List.append_assoc] at h
    obtain ⟨o, ts, rfl, ho, h⟩ := List.map_eq_cons_iff.mp h
    obtain ⟨us, vs, rfl, hu, hv⟩ := List.map_eq_append_iff.mp h
    obtain ⟨c, vs, rfl, hc, hv⟩ := List.map_eq_cons_iff.mp hv
    obtain rfl := List.map_eq_nil_iff.mp hv
    exact .mk (isMark_iff.mpr ho) (.plain (series_of_lexemes hu)) (isMark_iff.mpr hc)

/-- Tokens with the lexemes of a line are its statement. -/
theorem statement_of_lexemes {l : Line} (h : ts.map (·.lexeme) = l.lexemes) :
    ∃ s, StatementOf ts s ∧ l.Says s := by
  cases l with
  | settings scope as =>
    obtain ⟨k, ts, rfl, hk, h⟩ := List.map_eq_cons_iff.mp h
    have has := attributeList_of_lexemes h
    cases scope with
    | graph => exact ⟨_, .graph hk has, .graph as k⟩
    | nodes => exact ⟨_, .nodeDefaults hk has, .nodes as⟩
    | edges => exact ⟨_, .edgeDefaults hk has, .edges as⟩
  | node id as =>
    obtain ⟨v, ts, rfl, hv, h⟩ := List.map_eq_cons_iff.mp h
    have has := attributeList_of_lexemes h
    exact ⟨_, .node (congrArg Lexeme.id? hv) (.some has), .node id as⟩
  | edge s t =>
    obtain ⟨u, ts, rfl, hu, h⟩ := List.map_eq_cons_iff.mp h
    obtain ⟨a, ts, rfl, ha, h⟩ := List.map_eq_cons_iff.mp h
    obtain ⟨v, ts, rfl, hv, h⟩ := List.map_eq_cons_iff.mp h
    obtain rfl := List.map_eq_nil_iff.mp h
    have hsource : u.id? = some s := congrArg Lexeme.id? hu
    have htargets : Targets [a, v] [t] := .cons ha (congrArg Lexeme.id? hv) .nil
    have hchain := StatementOf.chain hsource htargets (List.cons_ne_nil _ _) .none
    exact ⟨_, hchain, .edge s t⟩

theorem body_of_lexemes {lines : List Line}
    (h : ts.map (·.lexeme) = lines.flatMap fun l => l.lexemes ++ [.mark .semicolon]) :
    ∃ statements, Body IsTerminator StatementOf ts statements ∧
      List.Forall₂ Line.Says lines statements := by
  induction lines generalizing ts with
  | nil =>
    obtain rfl := List.map_eq_nil_iff.mp h
    exact ⟨[], .empty, .nil⟩
  | cons l lines ih =>
    rw [List.flatMap_cons, List.append_assoc] at h
    obtain ⟨us, vs, rfl, hu, hv⟩ := List.map_eq_append_iff.mp h
    obtain ⟨t, vs, rfl, ht, hv⟩ := List.map_eq_cons_iff.mp hv
    obtain ⟨s, hs, hsays⟩ := statement_of_lexemes hu
    obtain ⟨statements, hbody, hall⟩ := ih hv
    exact ⟨s :: statements, .cons hs (isMark_iff.mpr ht) hbody, .cons hsays hall⟩

/-- **Tokens with the lexemes of a description are a sentence** with the statements of its lines. -/
theorem sentence_of_lexemes {name : String} {lines : List Line}
    (h : ts.map (·.lexeme) = describeLexemes name lines) :
    ∃ statements, Sentence ts (some name) statements ∧
      List.Forall₂ Line.Says lines statements := by
  obtain ⟨d, ts, rfl, hd, h⟩ := List.map_eq_cons_iff.mp h
  obtain ⟨n, ts, rfl, hn, h⟩ := List.map_eq_cons_iff.mp h
  obtain ⟨o, ts, rfl, ho, h⟩ := List.map_eq_cons_iff.mp h
  obtain ⟨us, vs, rfl, hu, hv⟩ := List.map_eq_append_iff.mp h
  obtain ⟨c, vs, rfl, hc, hv⟩ := List.map_eq_cons_iff.mp hv
  obtain rfl := List.map_eq_nil_iff.mp hv
  obtain ⟨statements, hbody, hsays⟩ := body_of_lexemes hu
  have hname : Id [n] name := .mk (congrArg Lexeme.id? hn)
  have hsentence := Sentence.mk .none hd (.some hname) (isMark_iff.mpr ho) hbody
    (isMark_iff.mpr hc)
  exact ⟨statements, hsentence, hsays⟩

end Tokens

end Scrawl.Graphviz
