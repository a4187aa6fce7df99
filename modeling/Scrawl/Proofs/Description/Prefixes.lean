import Scrawl.Proofs.Description.Places

/-!
# Scrawl.Proofs.Description.Prefixes — the token that is refused is the first wrong one

A reader goes by the next token only: what it takes, and what it refuses, it would take and refuse
with any other tokens behind the next one.  And what it has taken before a refusal can always be
gone on with.  So the tokens before the one refused are the beginning of a sentence, and with it
they are the beginning of none.

* `Decides`: a reader that goes by the next token; `Decides.bind`, `Decides.behind` and
  `Decides.congr` put such readers together and tell their cases apart.
* `decides_series`: items up to a closing mark, which are attribute lists and blocks.
* `decides_statement`, `decides_block`, `decides_head`: the readers of the grammar.
* `refuses_of_readGraph`: the reader of whole token lists.
* `read_refuses`: the token at which a description that is no sentence is refused.
-/

namespace Scrawl.Description

/-! ### Readers that go by the next token -/

section Decides

variable {β γ : Type}

/-- The reader goes by the next token on these tokens: it takes a phrase off their front, or what is
before the token that it refuses is the beginning of a phrase; and it does the same on all tokens
that begin with what it has passed and have the same next token. -/
structure Decides (P : List Token → Prop)
    (r : List Token → Except Refusal (β × List Token)) (tokens : List Token) : Prop where
  takes : ∀ b rest, r tokens = .ok (b, rest) → ∃ ts, tokens = ts ++ rest ∧ P ts ∧
    ∀ rest', rest'.head? = rest.head? → r (ts ++ rest') = .ok (b, rest')
  refuses : ∀ e, r tokens = .error e → ∃ ts us, tokens = ts ++ us ∧ e.token = us.head? ∧
    (∃ more, P (ts ++ more)) ∧ ∀ us', us'.head? = us.head? → r (ts ++ us') = .error e

/-- What a nonterminal says of something. -/
def Phrase (p : List Token → β → Prop) (tokens : List Token) : Prop := ∃ b, p tokens b

/-- A single token of a kind. -/
def One (kind : Token → Prop) (tokens : List Token) : Prop := ∃ t, tokens = [t] ∧ kind t

/-- A phrase of one kind with a phrase of another behind it. -/
def Behind (P Q : List Token → Prop) (tokens : List Token) : Prop :=
  ∃ ts us, tokens = ts ++ us ∧ P ts ∧ Q us

theorem head?_append_congr {ts us us' : List Token} (h : us'.head? = us.head?) :
    (ts ++ us').head? = (ts ++ us).head? := by
  rw [List.head?_append, List.head?_append, h]

theorem startsWith_congr {ts us : List Token} (h : us.head? = ts.head?) (m : Mark) :
    startsWith m us = startsWith m ts := by
  cases ts <;> cases us <;> simp_all [startsWith]

namespace Decides

variable {P Q : List Token → Prop} {r q : List Token → Except Refusal (β × List Token)}
  {tokens : List Token}

theorem mono (h : Decides P r tokens) (hp : ∀ ts, P ts → Q ts) :
    Decides Q r tokens where
  takes b rest hb := by
    obtain ⟨ts, hts, hphrase, hrest⟩ := h.takes b rest hb
    exact ⟨ts, hts, hp ts hphrase, hrest⟩
  refuses e he := by
    obtain ⟨ts, us, hts, hus, ⟨more, hmore⟩, hsame⟩ := h.refuses e he
    exact ⟨ts, us, hts, hus, ⟨more, hp _ hmore⟩, hsame⟩

/-- Only what the reader does on tokens with the same next token counts. -/
theorem congr (h : Decides P q tokens)
    (heq : ∀ us, us.head? = tokens.head? → r us = q us) : Decides P r tokens where
  takes b rest hb := by
    rw [heq tokens rfl] at hb
    obtain ⟨ts, rfl, hphrase, hrest⟩ := h.takes b rest hb
    refine ⟨ts, rfl, hphrase, fun rest' hhead => ?_⟩
    rw [heq _ (head?_append_congr hhead)]
    exact hrest rest' hhead
  refuses e he := by
    rw [heq tokens rfl] at he
    obtain ⟨ts, us, rfl, hus, hmore, hsame⟩ := h.refuses e he
    refine ⟨ts, us, rfl, hus, hmore, fun us' hhead => ?_⟩
    rw [heq _ (head?_append_congr hhead)]
    exact hsame us' hhead

theorem congr_nil (h : Decides P q []) (heq : r [] = q []) : Decides P r [] :=
  h.congr fun us hus => by rwa [List.head?_eq_none_iff.mp hus]

theorem congr_cons {t : Token} {rest : List Token} (h : Decides P q (t :: rest))
    (heq : ∀ us, r (t :: us) = q (t :: us)) : Decides P r (t :: rest) :=
  h.congr fun us hus => by
    obtain ⟨more, rfl⟩ := List.head?_eq_some_iff.mp hus
    exact heq more

/-- A reader that takes nothing. -/
theorem pure (b : β) : Decides (· = []) (fun us => .ok (b, us)) tokens where
  takes b' rest h := by
    cases h
    exact ⟨[], rfl, rfl, fun rest' _ => rfl⟩
  refuses e h := by cases h

theorem refuse (cause : Cause) (hp : ∃ ts, P ts) :
    Decides P (Description.refuse cause : List Token → Except Refusal (β × List Token)) tokens where
  takes b rest h := by cases h
  refuses e h := by
    cases h
    refine ⟨[], tokens, rfl, rfl, hp, fun us' hhead => ?_⟩
    rw [List.nil_append, Description.refuse, hhead]

/-- A reader of one token of a kind that there is. -/
theorem one {kind : Token → Prop} (cause : Cause) (hkind : ∃ t, kind t)
    (hnil : r [] = Description.refuse cause [])
    (hcons : ∀ t, (kind t ∧ ∃ b, ∀ us, r (t :: us) = .ok (b, us)) ∨
      ∀ us, r (t :: us) = Description.refuse cause (t :: us)) :
    Decides (One kind) r tokens := by
  obtain ⟨t₀, h₀⟩ := hkind
  have hrefuse : Decides (One kind)
      (Description.refuse cause : List Token → Except Refusal (β × List Token)) tokens :=
    .refuse cause ⟨[t₀], t₀, rfl, h₀⟩
  cases tokens with
  | nil => exact hrefuse.congr_nil hnil
  | cons t rest =>
    rcases hcons t with ⟨ht, b, htake⟩ | hno
    · refine ⟨fun b' rest' h => ?_, fun e h => ?_⟩
      · rw [htake] at h
        cases h
        exact ⟨[t], rfl, ⟨t, rfl, ht⟩, fun us _ => htake us⟩
      · rw [htake] at h
        cases h
    · exact hrefuse.congr_cons hno

/-- A reader that goes on behind the first token. -/
theorem behind {t : Token} (h : Decides P r tokens) :
    Decides (Behind (· = [t]) P) (fun us => r us.tail) (t :: tokens) where
  takes b rest hb := by
    obtain ⟨ts, rfl, hphrase, hrest⟩ := h.takes b rest hb
    exact ⟨t :: ts, rfl, ⟨[t], ts, rfl, rfl, hphrase⟩, hrest⟩
  refuses e he := by
    obtain ⟨ts, us, rfl, hus, ⟨more, hmore⟩, hsame⟩ := h.refuses e he
    exact ⟨t :: ts, us, rfl, hus, ⟨more, [t], ts ++ more, rfl, rfl, hmore⟩, hsame⟩

/-- A reader goes on where another one has stopped; what stands there may be made up. -/
theorem bind {q : β × List Token → Except Refusal (γ × List Token)}
    (h : Decides P r tokens)
    (h' : ∀ b rest, r tokens = .ok (b, rest) → Decides Q (fun us => q (b, us)) rest)
    (hp : ∃ us, Q us) :
    Decides (Behind P Q) (fun us => r us >>= q) tokens where
  takes c rest hc := by
    obtain ⟨⟨b, rest₁⟩, h₁, h₂⟩ := ok_of_bind_ok hc
    obtain ⟨ts, rfl, hts, htake⟩ := h.takes b rest₁ h₁
    obtain ⟨us, rfl, hus, htake'⟩ := (h' b rest₁ h₁).takes c rest h₂
    refine ⟨ts ++ us, by simp, ⟨ts, us, rfl, hts, hus⟩, fun rest' hhead => ?_⟩
    rw [List.append_assoc, htake _ (head?_append_congr hhead), ok_bind]
    exact htake' rest' hhead
  refuses e he := by
    rcases error_of_bind_error he with he | ⟨⟨b, rest⟩, h₁, h₂⟩
    · obtain ⟨ts, us, rfl, hus, ⟨more, hmore⟩, hsame⟩ := h.refuses e he
      obtain ⟨vs, hvs⟩ := hp
      refine ⟨ts, us, rfl, hus, ⟨more ++ vs, ts ++ more, vs, by simp, hmore, hvs⟩,
        fun us' hhead => ?_⟩
      rw [hsame us' hhead]
      rfl
    · obtain ⟨ts, rfl, hts, htake⟩ := h.takes b rest h₁
      obtain ⟨us, vs, rfl, hvs, ⟨more, hmore⟩, hsame⟩ := (h' b rest h₁).refuses e h₂
      refine ⟨ts ++ us, vs, by simp, hvs, ⟨more, ts, us ++ more, by simp, hts, hmore⟩,
        fun vs' hhead => ?_⟩
      rw [List.append_assoc, htake _ (head?_append_congr hhead), ok_bind]
      exact hsame vs' hhead

/-- A reader that gives something else for what it takes. -/
theorem map (f : β → γ) (h : Decides P r tokens) :
    Decides P (fun us => r us >>= fun p => .ok (f p.1, p.2)) tokens := by
  refine (h.bind (Q := (· = [])) (fun b rest _ => .pure (f b)) ⟨[], rfl⟩).mono ?_
  rintro _ ⟨ts, _, rfl, hts, rfl⟩
  rwa [List.append_nil]

end Decides

end Decides

/-! ### Tokens that there are -/

/-- Every lexeme is that of a token. -/
theorem exists_token (l : Lexeme) : ∃ t : Token, t.lexeme = l := ⟨⟨l, [], {}⟩, rfl⟩

theorem exists_id : ∃ (t : Token) (id : String), t.id? = some id := by
  obtain ⟨t, ht⟩ := exists_token (.name "x")
  exact ⟨t, "x", by rw [Token.id?, ht]; rfl⟩

theorem exists_mark (m : Mark) : ∃ t : Token, t.isMark m := by
  obtain ⟨t, ht⟩ := exists_token (.mark m)
  exact ⟨t, isMark_iff.mpr ht⟩

/-! ### Items up to a closing mark -/

section Series

variable {β γ : Type} {sep : Token → Prop} {item : List Token → β → Prop} {close : Mark}

/-- What stands behind the opening of a series: items with separators between them, and the closing
mark. -/
def SeriesEnd (sep : Token → Prop) (item : List Token → β → Prop) (close : Mark)
    (tokens : List Token) : Prop :=
  ∃ ts bs c, tokens = ts ++ [c] ∧ Body sep item ts bs ∧ c.isMark close

/-- What stands behind an item of a series. -/
def AfterItem (sep : Token → Prop) (item : List Token → β → Prop) (close : Mark)
    (tokens : List Token) : Prop :=
  (∃ t ts, tokens = t :: ts ∧ sep t ∧ SeriesEnd sep item close ts) ∨ One (·.isMark close) tokens

theorem SeriesEnd.of_item {tokens : List Token}
    (h : Behind (Phrase item) (AfterItem sep item close) tokens) :
    SeriesEnd sep item close tokens := by
  obtain ⟨ts, _, rfl, ⟨a, ha⟩, ⟨t, _, rfl, ht, us, as, c, rfl, hb, hc⟩ | ⟨c, rfl, hc⟩⟩ := h
  · exact ⟨ts ++ t :: us, a :: as, c, by simp, .cons ha ht hb, hc⟩
  · exact ⟨ts, [a], c, rfl, .plain (.one ha), hc⟩

/-- The reader stops at the closing mark, else it reads an item, and goes on only behind a
separator. -/
structure ReadsSeries (sep : Token → Prop) (close : Mark) (separates : List Token → Bool)
    (readItem : List Token → Except Refusal (β × List Token)) (finish : List β → γ)
    (readRest : List β → List Token → Except Refusal (γ × List Token)) : Prop where
  nil : ∀ done, ∃ cause, readRest done [] = refuse cause []
  closes : ∀ done c us, c.isMark close → readRest done (c :: us) = .ok (finish done, us)
  reads : ∃ cause, ∀ done us, us ≠ [] → startsWith close us = false →
    readRest done us = readItem us >>= fun p =>
      if separates p.2 then readRest (p.1 :: done) (p.2.drop 1)
      else if startsWith close p.2 then .ok (finish (p.1 :: done), p.2.drop 1)
      else refuse cause p.2
  separator : ∀ us, separates us → ∃ t more, us = t :: more ∧ sep t
  next : ∀ us us', us'.head? = us.head? → separates us' = separates us
  shorter : ∀ us b rest, readItem us = .ok (b, rest) → rest.length < us.length

theorem decides_series {separates : List Token → Bool}
    {readItem : List Token → Except Refusal (β × List Token)} {finish : List β → γ}
    {readRest : List β → List Token → Except Refusal (γ × List Token)}
    (h : ReadsSeries sep close separates readItem finish readRest)
    (hitem : ∀ tokens, Decides (Phrase item) readItem tokens) (done : List β)
    (tokens : List Token) : Decides (SeriesEnd sep item close) (readRest done) tokens := by
  obtain ⟨c₀, hc₀⟩ := exists_mark close
  obtain ⟨cause, hreads⟩ := h.reads
  induction hn : tokens.length using Nat.strong_induction_on generalizing tokens done with
  | _ n ih =>
    subst hn
    by_cases hnil : tokens = []
    · subst hnil
      obtain ⟨cause', hrefuse⟩ := h.nil done
      exact (Decides.refuse cause' ⟨[c₀], [], [], c₀, rfl, .empty, hc₀⟩).congr_nil hrefuse
    by_cases hclose : startsWith close tokens
    · obtain ⟨c, rest, rfl, hc⟩ := startsWith_sound hclose
      refine ((Decides.pure (finish done)).behind.congr_cons fun us =>
        h.closes done c us hc).mono ?_
      rintro _ ⟨_, _, rfl, rfl, rfl⟩
      exact ⟨[], [], c, rfl, .empty, hc⟩
    have hopen : startsWith close tokens = false := by simpa using hclose
    refine (((hitem tokens).bind (Q := AfterItem sep item close) (fun b rest hb => ?_)
      ⟨[c₀], Or.inr ⟨c₀, rfl, hc₀⟩⟩).congr fun us hus => hreads done us ?_
        ((startsWith_congr hus _).trans hopen)).mono fun _ => .of_item
    · dsimp only
      by_cases hsep : separates rest
      · obtain ⟨t, more, rfl, ht⟩ := h.separator rest hsep
        have hlt := h.shorter tokens b _ hb
        rw [List.length_cons] at hlt
        refine ((ih more.length (by omega) (b :: done) more rfl).behind.congr
          fun us hus => ?_).mono ?_
        · rw [h.next _ us hus, if_pos hsep, List.drop_one]
        · rintro _ ⟨_, ts, rfl, rfl, hts⟩
          exact Or.inl ⟨t, ts, rfl, ht, hts⟩
      by_cases hclose' : startsWith close rest
      · obtain ⟨c, more, rfl, hc⟩ := startsWith_sound hclose'
        refine ((Decides.pure (finish (b :: done))).behind.congr fun us hus => ?_).mono ?_
        · rw [h.next _ us hus, if_neg hsep, startsWith_congr hus, if_pos hclose', List.drop_one]
        · rintro _ ⟨_, _, rfl, rfl, rfl⟩
          exact Or.inr ⟨c, rfl, hc⟩
      · refine (Decides.refuse cause ⟨[c₀], Or.inr ⟨c₀, rfl, hc₀⟩⟩).congr fun us hus => ?_
        rw [h.next _ us hus, if_neg hsep, startsWith_congr hus, if_neg hclose']
    · rintro rfl
      exact hnil (List.head?_eq_none_iff.mp hus.symm)

end Series

/-! ### Ids, marks and pairs -/

/-- A name, number or quoted string. -/
def IsId (t : Token) : Prop := ∃ id, t.id? = some id

section Readers

variable (tokens : List Token)

theorem decides_id (cause : Cause) : Decides (One IsId) (readId cause) tokens := by
  obtain ⟨t₀, id₀, h₀⟩ := exists_id
  refine .one cause ⟨t₀, id₀, h₀⟩ rfl fun t => ?_
  cases ht : t.id? with
  | some id => exact Or.inl ⟨⟨id, ht⟩, id, fun us => readId_complete cause ht⟩
  | none => exact Or.inr fun us => by simp only [readId, ht]

theorem decides_mark (m : Mark) : Decides (One (·.isMark m)) (readMark m) tokens := by
  refine .one (.expectedMark m) (exists_mark m) rfl fun t => ?_
  by_cases ht : t.isMark m
  · exact Or.inl ⟨ht, (), fun us => readMark_complete ht⟩
  · exact Or.inr fun us => by simp only [readMark, ht, Bool.false_eq_true, if_false]

theorem decides_attribute : Decides (Phrase Pair) readAttribute tokens := by
  obtain ⟨v₀, id₀, hv₀⟩ := exists_id
  obtain ⟨e₀, he₀⟩ := exists_mark .equals
  have hread : Decides (Behind (One IsId) (Behind (One (·.isMark .equals)) (One IsId)))
      readAttribute tokens := by
    refine (decides_id tokens .expectedName).bind (fun key r₁ _ => ?_)
      ⟨[e₀, v₀], [e₀], [v₀], rfl, ⟨e₀, rfl, he₀⟩, v₀, rfl, id₀, hv₀⟩
    refine (decides_mark r₁ .equals).bind (fun _ r₂ _ => ?_) ⟨[v₀], v₀, rfl, id₀, hv₀⟩
    exact (decides_id r₂ (.expectedValueOf key)).map fun value => (key, value)
  refine hread.mono ?_
  rintro _ ⟨_, _, rfl, ⟨k, rfl, key, hk⟩, _, _, rfl, ⟨e, rfl, he⟩, v, rfl, value, hv⟩
  exact ⟨(key, value), .mk hk he hv⟩

/-! ### Attribute lists -/

theorem readsSeries_attributes : ReadsSeries IsSeparator .closeBracket
    (fun us => startsWith .comma us || startsWith .semicolon us) readAttribute List.reverse
    readAttributesFrom where
  nil done := ⟨.expectedName, by rw [readAttributesFrom]; rfl⟩
  closes done c us hc := by
    have hclose : startsWith .closeBracket (c :: us) := hc
    rw [readAttributesFrom, if_pos hclose, List.drop_one, List.tail_cons]
  reads := by
    refine ⟨.expectedSeparator, fun done us _ hopen => ?_⟩
    rw [readAttributesFrom, if_neg (by simp [hopen])]
    split
    · next e he => rw [he]; rfl
    · next a rest ha => rw [ha]; rfl
  separator us h := by
    rcases Bool.or_eq_true_iff.mp h with hs | hs
    · obtain ⟨t, more, rfl, ht⟩ := startsWith_sound hs
      exact ⟨t, more, rfl, Or.inl ht⟩
    · obtain ⟨t, more, rfl, ht⟩ := startsWith_sound hs
      exact ⟨t, more, rfl, Or.inr ht⟩
  next us us' h := by rw [startsWith_congr h, startsWith_congr h]
  shorter us a rest h := readAttribute_length h

theorem decides_attributes : Decides (Phrase AttributeList) readAttributes tokens := by
  obtain ⟨c₀, hc₀⟩ := exists_mark .closeBracket
  refine ((decides_mark tokens .openBracket).bind (fun _ r _ =>
    decides_series readsSeries_attributes decides_attribute [] r)
    ⟨[c₀], [], [], c₀, rfl, .empty, hc₀⟩).mono ?_
  rintro _ ⟨_, _, rfl, ⟨o, rfl, ho⟩, ts, as, c, rfl, hb, hc⟩
  exact ⟨as, .mk ho hb hc⟩

theorem decides_optionalAttributes :
    Decides (Phrase (Maybe AttributeList)) readOptionalAttributes tokens := by
  by_cases ho : startsWith .openBracket tokens
  · refine ((decides_attributes tokens).congr fun us hus => ?_).mono ?_
    · rw [readOptionalAttributes, startsWith_congr hus, if_pos ho]
    · rintro ts ⟨as, has⟩
      exact ⟨some as, .some has⟩
  · refine ((Decides.pure []).congr fun us hus => ?_).mono ?_
    · rw [readOptionalAttributes, startsWith_congr hus, if_neg ho]
    · rintro _ rfl
      exact ⟨none, .none⟩

/-! ### Statements -/

theorem readTargets_arrow {done : List String} {a : Token} (ha : a.lexeme = .arrow)
    (us : List Token) : readTargets done (a :: us) =
      readId .expectedTarget us >>= fun p => readTargets (p.1 :: done) p.2 := by
  cases us with
  | nil => simp [readTargets, ha, readId, refuse]; rfl
  | cons u more =>
    cases hu : u.id? with
    | some id => simp [readTargets, ha, readId, hu, ok_bind]
    | none => simp [readTargets, ha, readId, hu]; rfl

/-- Behind an arrow there is a target, then there may be more. -/
theorem decides_arrow {done : List String} {a : Token} (ha : a.lexeme = .arrow)
    {tokens : List Token}
    (h : ∀ id rest, rest.length < tokens.length →
      Decides (Phrase Targets) (readTargets (id :: done)) rest) :
    Decides (fun ts => ∃ ids, ids ≠ [] ∧ Targets ts ids) (readTargets done) (a :: tokens) := by
  have htarget := (decides_id tokens .expectedTarget).bind
    (Q := Phrase Targets) (q := fun p => readTargets (p.1 :: done) p.2)
    (fun id rest hid => h id rest (readId_length hid)) ⟨[], [], .nil⟩
  refine (htarget.behind.congr_cons fun us => readTargets_arrow ha us).mono ?_
  rintro _ ⟨_, _, rfl, rfl, _, ts, rfl, ⟨v, rfl, id, hv⟩, ids, hts⟩
  exact ⟨id :: ids, List.cons_ne_nil _ _, .cons ha hv hts⟩

theorem decides_targets (done : List String) :
    Decides (Phrase Targets) (readTargets done) tokens := by
  induction hn : tokens.length using Nat.strong_induction_on generalizing tokens done with
  | _ n ih =>
    subst hn
    cases tokens with
    | nil =>
      refine ((Decides.pure done.reverse).congr_nil (by rw [readTargets])).mono ?_
      rintro _ rfl
      exact ⟨[], .nil⟩
    | cons t rest =>
      by_cases ht : t.lexeme = .arrow
      · refine (decides_arrow ht fun id rest' hlt => ?_).mono ?_
        · exact ih rest'.length (by rw [List.length_cons]; omega) rest' (id :: done) rfl
        · rintro ts ⟨ids, -, hts⟩
          exact ⟨ids, hts⟩
      · refine ((Decides.pure done.reverse).congr_cons fun us => ?_).mono ?_
        · unfold readTargets
          simp [ht]
        · rintro _ rfl
          exact ⟨[], .nil⟩

/-- What stands in a statement behind its first id. -/
def AfterId (f : Token) (tokens : List Token) : Prop := Phrase StatementOf (f :: tokens)

theorem decides_afterId {f : Token} {first : String} (hf : f.id? = some first) :
    Decides (AfterId f) (readAfterId first) tokens := by
  have hnode : AfterId f [] := ⟨_, .node hf .none⟩
  cases tokens with
  | nil =>
    refine ((Decides.pure (.node first [])).congr_nil rfl).mono ?_
    rintro _ rfl
    exact hnode
  | cons t rest =>
    by_cases he : t.isMark .equals
    · -- the value is what stands behind the mark, and so is the place of the statement
      have hvalue := (decides_id rest .expectedValue).map fun value =>
        Statement.graphAttributes [(first, value)] (rest.headD t)
      refine ((hvalue.congr (r := fun us => readId .expectedValue us >>= fun p =>
        .ok (.graphAttributes [(first, p.1)] (us.headD t), p.2)) fun us hus => ?_).behind.congr_cons
          fun us => ?_).mono ?_
      · rw [List.headD_eq_head?_getD, hus, ← List.headD_eq_head?_getD]
      · simp only [readAfterId, he, if_true]
        rfl
      · rintro _ ⟨_, _, rfl, rfl, v, rfl, value, hv⟩
        exact ⟨_, .assignment (.mk hf he hv)⟩
    by_cases hd : t.lexeme = .dashes
    · exact (Decides.refuse .undirectedEdge ⟨[], hnode⟩).congr_cons fun us => by
        simp [readAfterId, he, hd]
    by_cases ha : t.lexeme = .arrow
    · have htargets : Decides _ (readTargets []) (t :: rest) :=
        decides_arrow ha fun id more _ => decides_targets more [id]
      have hchain := htargets.bind (Q := Phrase (Maybe AttributeList))
        (q := fun p => readOptionalAttributes p.2 >>= fun o => .ok (Statement.chain first p.1, o.2))
        (fun ids more _ => (decides_optionalAttributes more).map fun _ => Statement.chain first ids)
        ⟨[], none, .none⟩
      refine (hchain.congr_cons fun us => ?_).mono ?_
      · simp only [readAfterId, he, ha, beq_iff_eq, if_false, if_true, Bool.false_eq_true]
        rfl
      · rintro _ ⟨ts, us, rfl, ⟨ids, hne, hts⟩, as, has⟩
        exact ⟨_, .chain hf hts hne has⟩
    · have hplain := (decides_optionalAttributes (t :: rest)).map (Statement.node first)
      refine (hplain.congr_cons fun us => ?_).mono ?_
      · simp only [readAfterId, he, hd, ha, beq_iff_eq, if_false, Bool.false_eq_true]
        rfl
      · rintro us ⟨as, has⟩
        exact ⟨_, .node hf has⟩

/-- An attribute statement is its keyword and an attribute list. -/
theorem decides_defaults {t : Token} {rest : List Token} {make : Attributes → Statement}
    (hmake : ∀ us as, AttributeList us as → StatementOf (t :: us) (make as))
    (hread : ∀ us, readStatement (t :: us) =
      readAttributes us >>= fun p => .ok (make p.1, p.2)) :
    Decides (Phrase StatementOf) readStatement (t :: rest) := by
  refine (((decides_attributes rest).map make).behind.congr_cons hread).mono ?_
  rintro _ ⟨_, us, rfl, rfl, as, has⟩
  exact ⟨_, hmake us as has⟩

theorem exists_statement : ∃ ts, Phrase StatementOf ts := by
  obtain ⟨f, id, hf⟩ := exists_id
  exact ⟨[f], _, .node hf .none⟩

/-- **The reader of a statement goes by the next token.** -/
theorem decides_statement : Decides (Phrase StatementOf) readStatement tokens := by
  cases tokens with
  | nil => exact (Decides.refuse .expectedStatement exists_statement).congr_nil rfl
  | cons t rest =>
    have hrefuse : ∀ cause, (∀ us, readStatement (t :: us) = refuse cause (t :: us)) →
        Decides (Phrase StatementOf) readStatement (t :: rest) := fun cause h =>
      (Decides.refuse cause exists_statement).congr_cons h
    cases hid : t.id? with
    | some id =>
      refine ((decides_afterId rest hid).behind.congr_cons fun us =>
        readStatement_of_id? hid).mono ?_
      rintro _ ⟨_, ts, rfl, rfl, hts⟩
      exact hts
    | none =>
      cases ht : t.lexeme with
      | keyword k =>
        cases k with
        | graph =>
          exact decides_defaults (fun us as has => .graph ht has) fun us => by
            simp only [readStatement, ht]
            rfl
        | node =>
          exact decides_defaults (fun us as has => .nodeDefaults ht has) fun us => by
            simp only [readStatement, ht]
            rfl
        | edge =>
          exact decides_defaults (fun us as has => .edgeDefaults ht has) fun us => by
            simp only [readStatement, ht]
            rfl
        | strict | digraph | subgraph =>
          exact hrefuse (.unsupportedStatement (String.ofList t.raw)) fun us => by
            simp only [readStatement, ht]
      | name | number | quoted => simp [Token.id?, ht, Lexeme.id?] at hid
      | arrow | dashes | mark =>
        exact hrefuse .expectedStatement fun us => by simp only [readStatement, ht, hid]

/-! ### Statement lists -/

/-- The reader of statements by the tokens that it leaves. -/
def readBlock (done : List Statement) (tokens : List Token) : Except Refusal (Unit × List Token) :=
  (readStatements done tokens).2.map fun rest => ((), rest)

theorem readsSeries_block : ReadsSeries IsTerminator .closeBrace (startsWith .semicolon)
    readStatement (fun _ => ()) readBlock where
  nil done := ⟨.unterminatedBlock, by rw [readBlock, readStatements]; rfl⟩
  closes done c us hc := by
    rw [readBlock, readStatements, if_pos hc]
    rfl
  reads := by
    refine ⟨.expectedSemicolon, fun done us hne hopen => ?_⟩
    obtain ⟨t, rest, rfl⟩ := List.exists_cons_of_ne_nil hne
    have ht : t.isMark .closeBrace = false := hopen
    rw [readBlock, readStatements, if_neg (by simp [ht])]
    split
    · next e he => rw [he]; rfl
    · next s more hs =>
      rw [hs, ok_bind]
      split_ifs <;> rfl
  separator us h := startsWith_sound h
  next us us' h := startsWith_congr h _
  shorter us s rest h := readStatement_length h

theorem decides_block (done : List Statement) :
    Decides (SeriesEnd IsTerminator StatementOf .closeBrace) (readBlock done) tokens :=
  decides_series readsSeries_block decides_statement done tokens

/-! ### Whole token lists -/

/-- The name of a description, which may be missing, and its opening brace. -/
def NameEnd (tokens : List Token) : Prop :=
  ∃ ns o name, tokens = ns ++ [o] ∧ Maybe Id ns name ∧ o.isMark .openBrace

/-- The head of a description behind `strict`. -/
def Title (tokens : List Token) : Prop :=
  ∃ d ts, tokens = d :: ts ∧ d.lexeme = .keyword .digraph ∧ NameEnd ts

/-- The head of a description. -/
def Head (tokens : List Token) : Prop :=
  ∃ ss strict ts, tokens = ss ++ ts ∧ Maybe (Word .strict) ss strict ∧ Title ts

theorem exists_title : ∃ ts, Title ts := by
  obtain ⟨d, hd⟩ := exists_token (.keyword .digraph)
  obtain ⟨o, ho⟩ := exists_mark .openBrace
  exact ⟨[d, o], d, [o], rfl, hd, [], o, none, rfl, .none, ho⟩

/-- Takes the name of a description and its opening brace. -/
def readName (tokens : List Token) : Except Refusal (Option String × List Token) := do
  let name := tokens.head?.bind (·.id?)
  let (_, rest) ← readMark .openBrace (if name.isSome then tokens.drop 1 else tokens)
  return (name, rest)

theorem decides_name : Decides NameEnd readName tokens := by
  cases hname : tokens.head?.bind (·.id?) with
  | none =>
    refine (((decides_mark tokens .openBrace).map fun _ => none).congr fun us hus => ?_).mono ?_
    · rw [readName, hus, hname]
      rfl
    · rintro _ ⟨o, rfl, ho⟩
      exact ⟨[], o, none, rfl, .none, ho⟩
  | some id =>
    obtain ⟨n, hn, hid⟩ := Option.bind_eq_some_iff.mp hname
    obtain ⟨rest, rfl⟩ := List.head?_eq_some_iff.mp hn
    refine (((decides_mark rest .openBrace).map fun _ => some id).behind.congr
      fun us hus => ?_).mono ?_
    · rw [readName, hus, hname, List.drop_one]
      rfl
    · rintro _ ⟨_, _, rfl, rfl, o, rfl, ho⟩
      exact ⟨[n], o, some id, rfl, .some (.mk hid), ho⟩

/-- Takes the head of a description from behind `strict`. -/
def readTitle (tokens : List Token) : Except Refusal (Option String × List Token) :=
  match tokens with
  | [] => refuse .noDigraph []
  | t :: rest =>
    if t.lexeme == .keyword .graph then refuse .undirectedGraph (t :: rest)
    else if t.lexeme != .keyword .digraph then refuse .noDigraph (t :: rest)
    else readName rest

theorem readHead_eq : readHead tokens = readTitle (dropStrict tokens) := by
  unfold readHead readTitle
  cases dropStrict tokens <;> rfl

theorem decides_title : Decides Title readTitle tokens := by
  cases tokens with
  | nil => exact (Decides.refuse .noDigraph exists_title).congr_nil rfl
  | cons t rest =>
    by_cases hg : t.lexeme = .keyword .graph
    · exact (Decides.refuse .undirectedGraph exists_title).congr_cons fun us => by
        simp [readTitle, hg]
    by_cases hd : t.lexeme = .keyword .digraph
    · refine ((decides_name rest).behind.congr_cons fun us => by simp [readTitle, hd]).mono ?_
      rintro _ ⟨_, ts, rfl, rfl, hts⟩
      exact ⟨t, ts, rfl, hd, hts⟩
    · exact (Decides.refuse .noDigraph exists_title).congr_cons fun us => by
        simp [readTitle, hg, hd]

theorem decides_head : Decides Head readHead tokens := by
  have hplain : ∀ ts, Title ts → Head ts := fun ts hts => ⟨[], none, ts, rfl, .none, hts⟩
  by_cases hs : ∃ t rest, tokens = t :: rest ∧ t.lexeme = .keyword .strict
  · obtain ⟨t, rest, rfl, ht⟩ := hs
    refine ((decides_title rest).behind.congr_cons fun us => by
      simp [readHead_eq, dropStrict, ht]).mono ?_
    rintro _ ⟨_, ts, rfl, rfl, hts⟩
    exact ⟨[t], some (), ts, rfl, .some (.mk ht), hts⟩
  · refine ((decides_title tokens).congr fun us hus => ?_).mono hplain
    rw [readHead_eq]
    cases us with
    | nil => rfl
    | cons t more =>
      obtain ⟨rest, rfl⟩ := List.head?_eq_some_iff.mp hus.symm
      have ht : t.lexeme ≠ .keyword .strict := fun h => hs ⟨t, rest, rfl, h⟩
      simp [dropStrict, ht]

end Readers

section Whole

variable {tokens : List Token}

/-- The tokens are the beginning of a sentence. -/
def BeginsSentence (tokens : List Token) : Prop :=
  ∃ more name statements, Sentence (tokens ++ more) name statements

/-- The reader of a whole token list up to its last brace. -/
def readWhole (tokens : List Token) : Except Refusal (Unit × List Token) :=
  readHead tokens >>= fun p => readBlock [] p.2

theorem readGraph_refusal : (readGraph tokens).refusal =
    match readWhole tokens with
    | .error e => some e
    | .ok (_, []) => none
    | .ok (_, t :: _) => some ⟨.trailingContent, some t⟩ := by
  unfold readGraph readWhole readBlock
  cases readHead tokens with
  | error e => rfl
  | ok p =>
    rw [ok_bind]
    dsimp only
    rcases readStatements [] p.2 with ⟨ss, e | _ | ⟨t, more⟩⟩ <;> rfl

/-- What the reader of a whole token list takes is a sentence. -/
theorem decides_whole (tokens : List Token) :
    Decides (fun ts => ∃ name ss, Sentence ts name ss) readWhole tokens := by
  obtain ⟨c₀, hc₀⟩ := exists_mark .closeBrace
  refine ((decides_head tokens).bind (fun _ rest _ => decides_block rest [])
    ⟨[c₀], [], [], c₀, rfl, .empty, hc₀⟩).mono ?_
  rintro _ ⟨_, _, rfl, ⟨ss, strict, _, rfl, hs, d, _, rfl, hd, ns, o, name, rfl, hn, ho⟩, ts, bs, c,
    rfl, hb, hc⟩
  refine ⟨name, bs, ?_⟩
  have h := Sentence.mk hs hd hn ho hb hc
  simpa using h

/-- **What is refused is the first wrong token.**  What is before it begins a sentence, and the same
is refused if anything else stands behind it. -/
theorem refuses_of_readGraph {e : Refusal} (h : (readGraph tokens).refusal = some e) :
    ∃ ts us, tokens = ts ++ us ∧ e.token = us.head? ∧ BeginsSentence ts ∧
      ∀ us', us'.head? = us.head? → (readGraph (ts ++ us')).refusal = some e := by
  rw [readGraph_refusal] at h
  split at h
  · next e' he =>
    cases h
    obtain ⟨ts, us, hts, hus, hmore, hsame⟩ := (decides_whole tokens).refuses e he
    refine ⟨ts, us, hts, hus, hmore, fun us' hhead => ?_⟩
    rw [readGraph_refusal, hsame us' hhead]
  · cases h
  · next u t more hok =>
    cases h
    obtain ⟨ts, rfl, ⟨name, ss, hs⟩, hsame⟩ := (decides_whole tokens).takes u _ hok
    refine ⟨ts, t :: more, rfl, rfl, ⟨[], name, ss, by rwa [List.append_nil]⟩, fun us' hhead => ?_⟩
    rw [readGraph_refusal, hsame us' hhead]
    obtain ⟨more', rfl⟩ := List.head?_eq_some_iff.mp hhead
    rfl

end Whole

/-! ### Faults of values -/

/-- Whether the value of a graph attribute is what is wrong. -/
def Cause.IsValue : Cause → Prop
  | invalidDirection _ => True
  | invalidGap _ _ => True
  | _ => False

theorem isValue_of_setAttribute {g : Graph Float} {key value : String} {cause : Cause}
    (h : setAttribute g key value = .error cause) : cause.IsValue := by
  unfold setAttribute at h
  split at h
  · split at h <;> cases h
    trivial
  · dsimp only at h
    split at h <;> cases h
    trivial
  · dsimp only at h
    split at h <;> cases h
    trivial
  · cases h

theorem isValue_of_setAll {attributes : Attributes} {g : Graph Float} {cause : Cause}
    (h : attributes.foldlM (fun g p => setAttribute g p.1 p.2) g = .error cause) :
    cause.IsValue := by
  induction attributes generalizing g with
  | nil => cases h
  | cons p attributes ih =>
    rw [List.foldlM_cons] at h
    rcases error_of_bind_error h with h | ⟨g', -, h⟩
    · exact isValue_of_setAttribute h
    · exact ih h

theorem isValue_of_act {d : Draft} {s : Statement} {cause : Cause} {t : Token}
    (h : d.act s = .error (cause, t)) : cause.IsValue := by
  cases s with
  | graphAttributes as place =>
    rw [Draft.act] at h
    dsimp only at h
    split at h <;> cases h
    next heq => exact isValue_of_setAll heq
  | nodeDefaults | edgeDefaults | chain | node => cases h

theorem isValue_of_actFrom {finish : Position} {d : Draft} {statements : List Statement} {f : Fault}
    (h : actFrom finish d statements = .error f) : f.cause.IsValue := by
  induction statements generalizing d with
  | nil => cases h
  | cons s statements ih =>
    rw [actFrom_cons] at h
    cases hact : d.act s with
    | ok d' =>
      rw [hact] at h
      exact ih h
    | error e =>
      rw [hact] at h
      cases h
      exact isValue_of_act hact

/-- A fault with a place that is of no value is a refusal. -/
theorem refusal_of_ofTokens {s : Scan} {f : Fault} (h : ofTokens s = .error f)
    (hplace : f.position ≠ none) (hvalue : ¬ f.cause.IsValue) :
    ∃ e, (readGraph s.tokens).refusal = some e ∧ f = faultAt e.cause s.finish e.token := by
  rcases error_of_bind_error h with h | ⟨d, -, h⟩
  · exact absurd (isValue_of_actFrom h) hvalue
  · cases hr : (readGraph s.tokens).refusal with
    | some e =>
      rw [hr] at h
      cases h
      exact ⟨e, rfl, rfl⟩
    | none =>
      rw [hr] at h
      dsimp only at h
      split_ifs at h <;> cases h
      exact absurd rfl hplace

/-! ### Descriptions -/

/-- Tokens behind a text have places behind it, all of them different. -/
theorem nodup_positions {before : List Char} {ps : List Piece} (h : ∀ p ∈ ps, p.raw ≠ []) :
    ((tokensBehind before ps).map (·.position)).Nodup := by
  induction ps generalizing before with
  | nil => exact List.nodup_nil
  | cons p ps ih =>
    obtain ⟨hp, hps⟩ := List.forall_mem_cons.mp h
    rw [tokensBehind, List.map_append, List.nodup_append]
    refine ⟨?_, ih hps, ?_⟩
    · rw [Piece.tokens]
      cases p.lexeme <;> simp
    · intro a ha b hb hab
      obtain ⟨t, ht, rfl⟩ := List.mem_map.mp ha
      obtain ⟨u, hu, rfl⟩ := List.mem_map.mp hb
      obtain ⟨lexeme, -, rfl⟩ := Option.map_eq_some_iff.mp (Option.mem_toList.mp ht)
      obtain ⟨ps₁, _, _, -, -, -, hplace⟩ := mem_tokensBehind hu
      rw [List.append_assoc] at hplace
      have hnil := Position.eq_nil_of_behind_append (hplace.symm.trans hab.symm)
      exact hp (List.append_eq_nil_iff.mp hnil).1

/-- **A description that is no sentence is refused at its first wrong token.**  If a text can be cut
into tokens, then a fault with a place that is not of the value of a graph attribute is reported at
a token, the only one with its place, such that the tokens before it begin a sentence and with it
they begin none; or it is reported at the end, and then the tokens begin a sentence and are none. -/
theorem read_refuses {text : String} {s : Scan} {f : Fault} (hs : scan text = .ok s)
    (hf : read text = .error f) (hplace : f.position ≠ none)
    (hdirection : ∀ value, f.cause ≠ .invalidDirection value)
    (hgap : ∀ gap value, f.cause ≠ .invalidGap gap value) :
    (∃ before t after, s.tokens = before ++ t :: after ∧
      f.fragment = String.ofList t.raw ∧ f.position = some t.position ∧
      (∀ u ∈ before ++ after, u.position ≠ t.position) ∧
      BeginsSentence before ∧ ¬ BeginsSentence (before ++ [t])) ∨
    (f.fragment = "<end of input>" ∧ f.position = some s.finish ∧
      BeginsSentence s.tokens ∧ ¬ ∃ name statements, Sentence s.tokens name statements) := by
  have hvalue : ¬ f.cause.IsValue := fun h => by
    unfold Cause.IsValue at h
    split at h
    · next value hcause => exact hdirection value hcause
    · next gap value hcause => exact hgap gap value hcause
    · exact h
  rw [read, hs, ok_bind] at hf
  obtain ⟨e, he, rfl⟩ := refusal_of_ofTokens hf hplace hvalue
  obtain ⟨ts, us, htokens, hus, hbegins, hsame⟩ := refuses_of_readGraph he
  cases us with
  | nil =>
    rw [List.append_nil] at htokens
    subst htokens
    rw [List.head?_nil] at hus
    rw [hus]
    refine Or.inr ⟨rfl, rfl, hbegins, ?_⟩
    rintro ⟨name, ss, hsent⟩
    rw [readGraph_complete hsent] at he
    cases he
  | cons t after =>
    rw [List.head?_cons] at hus
    rw [hus]
    refine Or.inl ⟨ts, t, after, htokens, rfl, rfl, fun u hu => ?_, hbegins, ?_⟩
    · obtain ⟨ps, hps, -, -, hall, -⟩ := (scan_places text).1 s hs
      have hnodup : (s.tokens.map (·.position)).Nodup := by
        rw [hall]
        exact nodup_positions fun p hp => (hps.skipped p hp).1
      rw [htokens, List.map_append, List.map_cons, List.nodup_middle, List.nodup_cons] at hnodup
      intro heq
      refine hnodup.1 (heq ▸ ?_)
      rw [← List.map_append]
      exact List.mem_map_of_mem hu
    · rintro ⟨more, name, ss, hsent⟩
      rw [List.append_assoc, List.singleton_append] at hsent
      have hnone := hsame (t :: more) rfl
      rw [readGraph_complete hsent] at hnone
      cases hnone

/-- The brace that stands where the broken sample lacks a target is its first wrong token. -/
theorem read_refuses_broken : ∃ s f, scan brokenSample = .ok s ∧ read brokenSample = .error f ∧
    f.cause = .expectedTarget ∧ ∃ before t after, s.tokens = before ++ t :: after ∧
      t.position = ⟨4, 7⟩ ∧ BeginsSentence before ∧ ¬ BeginsSentence (before ++ [t]) := by
  obtain ⟨s, hs⟩ : ∃ s, scan brokenSample = .ok s := exists_ok_of_isOk (by decide +kernel)
  have hfault : (match read brokenSample with
      | .error f => f.position == some ⟨4, 7⟩ && f.cause == .expectedTarget && f.fragment == "\x7d"
      | .ok _ => false) = true := by decide +kernel
  cases hf : read brokenSample with
  | ok g =>
    rw [hf] at hfault
    cases hfault
  | error f =>
    rw [hf] at hfault
    simp only [Bool.and_eq_true, beq_iff_eq] at hfault
    obtain ⟨⟨hplace, hcause⟩, hbrace⟩ := hfault
    refine ⟨s, f, hs, rfl, hcause, ?_⟩
    rcases read_refuses hs hf (by rw [hplace]; nofun) (by rw [hcause]; nofun)
      (by rw [hcause]; nofun) with ⟨before, t, after, htokens, -, hat, -, hgood, hbad⟩ | ⟨hend, -⟩
    · exact ⟨before, t, after, htokens, Option.some.inj (hat.symm.trans hplace), hgood, hbad⟩
    · exact absurd (hbrace.symm.trans hend) (by decide)

end Scrawl.Description
