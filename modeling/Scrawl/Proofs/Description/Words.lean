import Scrawl.Proofs.Description.Content
import Scrawl.Proofs.Description.Places

/-!
# Scrawl.Proofs.Description.Words — the words of a description

Every id, attribute name and value of a statement is what one of its tokens stands for, and that is
made of characters of the token, but for the line feeds of escapes.  So the ids and labels of a
graph have no characters that the description does not have.

* `mem_unescape`, `mem_of_piece`: what a piece stands for is made of its characters.
* `Sentence.words`: the words of statements are what tokens stand for.
* `labelIn_cases`: a label is a word of a statement, or an id.
* `read_characters`: the characters of the ids and labels of a graph.
-/

namespace Scrawl.Description

/-! ### Words of tokens -/

section Tokens

variable {cs : List Char} {c : Char} {w : String}

/-- Taking escapes back brings in nothing but line feeds. -/
theorem mem_unescape (h : c ∈ unescape cs) : c ∈ cs ∨ c = '\n' := by
  fun_induction unescape cs with
  | case1 d rest ih =>
    rcases List.mem_cons.mp h with hd | hrest
    · split at hd
      · exact Or.inr hd
      · exact Or.inl (hd ▸ List.mem_cons_of_mem _ List.mem_cons_self)
    · exact (ih hrest).imp_left fun hmem => List.mem_cons_of_mem _ (List.mem_cons_of_mem _ hmem)
  | case2 d rest _ ih =>
    rcases List.mem_cons.mp h with rfl | hrest
    · exact Or.inl List.mem_cons_self
    · exact (ih hrest).imp_left (List.mem_cons_of_mem _)
  | case3 => exact absurd h List.not_mem_nil

/-- What a piece stands for is made of its characters, but for line feeds. -/
theorem mem_of_piece {p : Piece} {l : Lexeme} (h : piece? cs = some p) (hl : p.lexeme = some l)
    (hw : l.id? = some w) (hc : c ∈ w.toList) : c ∈ p.raw ∨ c = '\n' := by
  cases kindOf_iff.mpr h with
  | string =>
    cases hl
    cases hw
    rw [String.toList_ofList] at hc
    exact (mem_unescape hc).imp_left fun hmem =>
      List.mem_of_mem_drop ((List.dropLast_sublist _).mem hmem)
  | number =>
    cases hl
    cases hw
    rw [String.toList_ofList] at hc
    exact Or.inl hc
  | name =>
    cases hl
    rw [id?_nameLexeme hw, String.toList_ofList] at hc
    exact Or.inl hc
  | blanks | comment => cases hl
  | arrow | dashes | mark =>
    cases hl
    cases hw

/-- What a token stands for is made of characters of the text, but for line feeds. -/
theorem mem_of_scan {text : String} {s : Scan} (h : scan text = .ok s) {t : Token}
    (ht : t ∈ s.tokens) (hw : t.id? = some w) (hc : c ∈ w.toList) :
    c ∈ text.toList ∨ c = '\n' := by
  obtain ⟨cs, p, hp, hl, hraw⟩ := (exists_piece_of_scanFrom h ht).resolve_left List.not_mem_nil
  refine (mem_of_piece hp hl hw hc).imp_left fun hmem => ?_
  obtain ⟨ps, rest, hps, ⟨-, hscan⟩ | ⟨-, -, hscan⟩⟩ := scan_cases text
  · cases hscan.symm.trans h
    obtain ⟨-, more, before, hsplit, -⟩ := hps.standsAt ht
    rw [← hsplit]
    exact List.mem_append_right _ (List.mem_append_left _ (hraw ▸ hmem))
  · cases hscan.symm.trans h

end Tokens

/-! ### Words of statements -/

/-- The names and values of an attribute list. -/
def wordsOf (attributes : Attributes) : List String := attributes.flatMap fun a => [a.1, a.2]

/-- The ids, attribute names and values of a statement. -/
def Statement.words : Statement → List String
  | graphAttributes attributes _ => wordsOf attributes
  | nodeDefaults attributes => wordsOf attributes
  | edgeDefaults attributes => wordsOf attributes
  | chain first rest => first :: rest
  | node id attributes => id :: wordsOf attributes

/-- One of the tokens stands for the word. -/
def StandsFor (ts : List Token) (w : String) : Prop := ∃ t ∈ ts, t.id? = some w

section Words

variable {ts us : List Token} {w : String}

theorem StandsFor.mono (h : StandsFor ts w) (hsub : ts ⊆ us) : StandsFor us w := by
  obtain ⟨t, ht, hw⟩ := h
  exact ⟨t, hsub ht, hw⟩

theorem StandsFor.head {t : Token} (h : t.id? = some w) : StandsFor (t :: ts) w :=
  ⟨t, List.mem_cons_self, h⟩

/-- The tokens of an item of a body are among those of the body. -/
theorem Body.exists_item {β : Type} {sep : Token → Prop} {item : List Token → β → Prop}
    {bs : List β} (h : Body sep item ts bs) {b : β} (hb : b ∈ bs) : ∃ us, us ⊆ ts ∧ item us b := by
  induction h using Body.induct with
  | empty => exact absurd hb List.not_mem_nil
  | @last ts b' hitem =>
    obtain rfl := List.mem_singleton.mp hb
    exact ⟨ts, List.Subset.refl _, hitem⟩
  | @cons ts us b' bs t hitem _ _ ih =>
    rcases List.mem_cons.mp hb with rfl | hb
    · exact ⟨ts, List.subset_append_left _ _, hitem⟩
    · obtain ⟨vs, hsub, hitem⟩ := ih hb
      refine ⟨vs, fun v hv => ?_, hitem⟩
      exact List.mem_append_right _ (List.mem_cons_of_mem _ (hsub hv))

theorem Pair.words {a : String × String} (h : Pair ts a) :
    StandsFor ts a.1 ∧ StandsFor ts a.2 := by
  cases h with
  | @mk k e v _ _ hk _ hv => exact ⟨⟨k, by simp, hk⟩, ⟨v, by simp, hv⟩⟩

theorem AttributeList.words {attributes : Attributes} (h : AttributeList ts attributes)
    (hw : w ∈ wordsOf attributes) : StandsFor ts w := by
  cases h with
  | @mk o c inner _ _ hb _ =>
    obtain ⟨a, ha, hw⟩ := List.mem_flatMap.mp hw
    obtain ⟨vs, hsub, hpair⟩ := hb.exists_item ha
    have hin : vs ⊆ o :: (inner ++ [c]) := fun v hv =>
      List.mem_cons_of_mem _ (List.mem_append_left _ (hsub hv))
    obtain ⟨hname, hvalue⟩ := hpair.words
    rcases List.mem_cons.mp hw with rfl | hw
    · exact hname.mono hin
    · obtain rfl := List.mem_singleton.mp hw
      exact hvalue.mono hin

theorem words_optional {o : Option Attributes} (h : Maybe AttributeList ts o)
    (hw : w ∈ wordsOf (o.getD [])) : StandsFor ts w := by
  cases h with
  | none => exact absurd hw List.not_mem_nil
  | some h => exact h.words hw

theorem Targets.words {ids : List String} (h : Targets ts ids) (hw : w ∈ ids) :
    StandsFor ts w := by
  induction h with
  | nil => exact absurd hw List.not_mem_nil
  | @cons a v ts id ids _ hv _ ih =>
    rcases List.mem_cons.mp hw with rfl | hw
    · exact (StandsFor.head hv).mono (List.subset_cons_self _ _)
    · exact (ih hw).mono fun t ht => List.mem_cons_of_mem _ (List.mem_cons_of_mem _ ht)

/-- The words of a statement are what its tokens stand for. -/
theorem StatementOf.words {s : Statement} (h : StatementOf ts s) (hw : w ∈ s.words) :
    StandsFor ts w := by
  cases h with
  | assignment h =>
    obtain ⟨hname, hvalue⟩ := h.words
    rcases List.mem_cons.mp hw with rfl | hw
    · exact hname
    · obtain rfl := List.mem_singleton.mp hw
      exact hvalue
  | chain hf ht _ _ =>
    rcases List.mem_cons.mp hw with rfl | hw
    · exact .head hf
    · exact (ht.words hw).mono fun t ht => List.mem_cons_of_mem _ (List.mem_append_left _ ht)
  | node hf ha =>
    rcases List.mem_cons.mp hw with rfl | hw
    · exact .head hf
    · exact (words_optional ha hw).mono (List.subset_cons_self _ _)
  | graph _ ha => exact (ha.words hw).mono (List.subset_cons_self _ _)
  | nodeDefaults _ ha => exact (ha.words hw).mono (List.subset_cons_self _ _)
  | edgeDefaults _ ha => exact (ha.words hw).mono (List.subset_cons_self _ _)

/-- **The words of the statements of a sentence** are what its tokens stand for. -/
theorem Sentence.words {name : Option String} {statements : List Statement}
    (h : Sentence ts name statements) {s : Statement} (hs : s ∈ statements) (hw : w ∈ s.words) :
    StandsFor ts w := by
  obtain ⟨-, -, -, -, hb, -⟩ := h
  obtain ⟨us, hsub, hstatement⟩ := hb.exists_item hs
  refine (hstatement.words hw).mono fun t ht => ?_
  simp [hsub ht]

end Words

/-! ### Words of graphs -/

section Labels

variable {s : Statement} {v w : String}

theorem mem_words_of_labelsOf {attributes : Attributes} (h : w ∈ labelsOf attributes) :
    w ∈ wordsOf attributes := by
  obtain ⟨a, ha, rfl⟩ := List.mem_map.mp h
  exact List.mem_flatMap.mpr ⟨a, (List.mem_filter.mp ha).1, by simp⟩

theorem mem_words_of_mentioned (h : w ∈ s.mentioned) : w ∈ s.words := by
  cases s with
  | chain first rest =>
    cases rest with
    | nil => exact absurd h List.not_mem_nil
    | cons => exact h
  | node id attributes =>
    obtain rfl := List.mem_singleton.mp h
    exact List.mem_cons_self
  | graphAttributes | nodeDefaults | edgeDefaults => exact absurd h List.not_mem_nil

theorem mem_words_of_givenLabels (h : w ∈ s.givenLabels v) : w ∈ s.words := by
  cases s with
  | node id attributes =>
    simp only [Statement.givenLabels] at h
    split at h
    · exact List.mem_cons_of_mem _ (mem_words_of_labelsOf h)
    · exact absurd h List.not_mem_nil
  | graphAttributes | nodeDefaults | edgeDefaults | chain => exact absurd h List.not_mem_nil

theorem mem_words_of_newDefaults (h : w ∈ s.newDefaults) : w ∈ s.words := by
  cases s with
  | nodeDefaults attributes => exact mem_words_of_labelsOf h
  | graphAttributes | edgeDefaults | chain | node => exact absurd h List.not_mem_nil

/-- The label of an id is a word of a statement, or the id. -/
theorem labelIn_cases (statements : List Statement) (v : String) :
    labelIn statements v = v ∨ ∃ s ∈ statements, labelIn statements v ∈ s.words := by
  unfold labelIn
  cases hgiven : (statements.flatMap (Statement.givenLabels v)).getLast? with
  | some label =>
    obtain ⟨s, hs, hlabel⟩ := List.mem_flatMap.mp (List.mem_of_getLast? hgiven)
    exact Or.inr ⟨s, hs, mem_words_of_givenLabels hlabel⟩
  | none =>
    cases hdefault : defaultAfter (beforeMention v statements) with
    | some label =>
      obtain ⟨s, hs, hlabel⟩ := List.mem_flatMap.mp (List.mem_of_getLast? hdefault)
      exact Or.inr ⟨s, (List.takeWhile_sublist _).mem hs, mem_words_of_newDefaults hlabel⟩
    | none => exact Or.inl rfl

end Labels

/-- **The ids and labels of a graph** have no characters but those of its description, and line
feeds. -/
theorem read_characters {text : String} {g : Graph Float} (h : read text = .ok g) {u : Node Float}
    (hu : u ∈ g.nodes) {c : Char} (hc : c ∈ u.id.toList ∨ c ∈ u.label.toList) :
    c ∈ text.toList ∨ c = '\n' := by
  obtain ⟨s, hs, hread⟩ := ok_of_bind_ok h
  obtain ⟨name, statements, d, hsentence, hd, -, -, rfl⟩ := ofTokens_sound hread
  have hwords : ∀ t ∈ statements, ∀ w ∈ t.words, ∀ c ∈ w.toList,
      c ∈ text.toList ∨ c = '\n' := by
    intro t ht w hw c hc
    obtain ⟨token, htoken, hid⟩ := hsentence.words ht hw
    exact mem_of_scan hs htoken hid hc
  have hids : d.graph.ids = (statements.flatMap Statement.mentioned).foldl mention [] :=
    (actFrom_graph s.finish hd).1
  have hid : ∀ c ∈ u.id.toList, c ∈ text.toList ∨ c = '\n' := by
    have hmem : u.id ∈ d.graph.ids := List.mem_map_of_mem hu
    rw [hids, mem_foldl_mention] at hmem
    obtain ⟨t, ht, hmentioned⟩ := List.mem_flatMap.mp (hmem.resolve_left List.not_mem_nil)
    exact hwords t ht u.id (mem_words_of_mentioned hmentioned)
  rcases hc with hc | hc
  · exact hid c hc
  · have hlabelled : Labelled statements d := actFrom_labelled labelled_empty hd
    have hlabel : u.label = labelIn statements u.id := hlabelled.labels u hu
    rcases labelIn_cases statements u.id with hself | ⟨t, ht, hword⟩
    · exact hid c (hself ▸ hlabel ▸ hc)
    · exact hwords t ht _ hword c (hlabel ▸ hc)

end Scrawl.Description
