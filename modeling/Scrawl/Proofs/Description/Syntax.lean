import Mathlib.Tactic.SplitIfs
import Scrawl.Proofs.Description.Grammar

/-!
# Scrawl.Proofs.Description.Syntax — the readers accept the sentences and no others

For each reader, what it takes off the front is of its nonterminal (`…_sound`), and of the tokens of
the nonterminal, with what may follow them behind, it takes exactly these (`…_complete`).  Optional
attributes and arrows are taken as long as there are any, which is right because a statement is
followed by `;` or `}`.

* `readGraph_complete`, `readGraph_sound`: a token list is read without a refusal if and only if it
  is a sentence, with the name and the statements of that sentence.
* `Sentence.unique`: a token list says one thing only.
-/

namespace Scrawl.Description

variable {tokens rest : List Token}

theorem ok_bind {ε β γ : Type} (b : β) (f : β → Except ε γ) : (Except.ok b >>= f) = f b := rfl

theorem error_of_bind_error {ε β γ : Type} {x : Except ε β} {f : β → Except ε γ} {e : ε}
    (h : (x >>= f) = .error e) : x = .error e ∨ ∃ b, x = .ok b ∧ f b = .error e := by
  cases x with
  | error e' =>
    cases h
    exact Or.inl rfl
  | ok b => exact Or.inr ⟨b, rfl, h⟩

/-! ### Ids, marks and pairs -/

theorem readId_sound {cause : Cause} {id : String} (h : readId cause tokens = .ok (id, rest)) :
    ∃ t, tokens = t :: rest ∧ t.id? = some id := by
  unfold readId at h
  split at h
  · cases h
  · next t more =>
    split at h
    · next hid =>
      cases h
      exact ⟨t, rfl, hid⟩
    · cases h

theorem readId_complete (cause : Cause) {t : Token} {id : String} (h : t.id? = some id) :
    readId cause (t :: rest) = .ok (id, rest) := by
  simp [readId, h]

theorem id?_of_isMark {t : Token} {m : Mark} (h : t.isMark m) : t.id? = none := by
  simp [Token.id?, isMark_iff.mp h, Lexeme.id?]

theorem isMark_of_id? {t : Token} {id : String} (h : t.id? = some id) (m : Mark) :
    t.isMark m = false :=
  Bool.eq_false_iff.mpr fun hm => by simp [id?_of_isMark hm] at h

theorem readMark_sound {m : Mark} {u : Unit} (h : readMark m tokens = .ok (u, rest)) :
    ∃ t, tokens = t :: rest ∧ t.isMark m := by
  unfold readMark at h
  split at h
  · cases h
  · next t more =>
    split at h
    · next hm =>
      cases h
      exact ⟨t, rfl, hm⟩
    · cases h

theorem readMark_complete {m : Mark} {t : Token} (h : t.isMark m) :
    readMark m (t :: rest) = .ok ((), rest) := by
  simp only [readMark, h, if_true]

theorem startsWith_sound {m : Mark} (h : startsWith m tokens) :
    ∃ t more, tokens = t :: more ∧ t.isMark m := by
  cases tokens with
  | nil => cases h
  | cons t more => exact ⟨t, more, rfl, h⟩

theorem readAttribute_sound {a : String × String} (h : readAttribute tokens = .ok (a, rest)) :
    ∃ ts, tokens = ts ++ rest ∧ Pair ts a := by
  obtain ⟨⟨key, r₁⟩, h₁, h⟩ := ok_of_bind_ok h
  obtain ⟨⟨_, r₂⟩, h₂, h⟩ := ok_of_bind_ok h
  obtain ⟨⟨value, r₃⟩, h₃, h⟩ := ok_of_bind_ok h
  cases h
  obtain ⟨k, rfl, hk⟩ := readId_sound h₁
  obtain ⟨e, rfl, he⟩ := readMark_sound h₂
  obtain ⟨v, rfl, hv⟩ := readId_sound h₃
  exact ⟨[k, e, v], rfl, .mk hk he hv⟩

theorem readAttribute_complete {ts : List Token} {a : String × String} (h : Pair ts a)
    (rest : List Token) : readAttribute (ts ++ rest) = .ok (a, rest) := by
  obtain ⟨hk, he, hv⟩ := h
  simp only [readAttribute, List.cons_append, List.nil_append, readId_complete _ hk,
    readMark_complete he, readId_complete _ hv, ok_bind]
  rfl

theorem Pair.not_startsWith {ts : List Token} {a : String × String} (h : Pair ts a) (m : Mark) :
    startsWith m (ts ++ rest) = false := by
  obtain ⟨hk, -, -⟩ := h
  exact isMark_of_id? hk m

/-! ### Attribute lists -/

theorem readAttributesFrom_sound {done as : Attributes}
    (h : readAttributesFrom done tokens = .ok (as, rest)) : ∃ ts bs c, tokens = ts ++ c :: rest ∧
      Body IsSeparator Pair ts bs ∧ c.isMark .closeBracket ∧ as = done.reverse ++ bs := by
  fun_induction readAttributesFrom done tokens with
  | case1 done tokens hc =>
    obtain ⟨c, more, rfl, hc⟩ := startsWith_sound hc
    cases h
    exact ⟨[], [], c, rfl, .empty, hc, by simp⟩
  | case2 => cases h
  | case3 done tokens _ a more hr hs ih =>
    obtain ⟨ts, rfl, hp⟩ := readAttribute_sound hr
    obtain ⟨t, more, rfl, ht⟩ : ∃ t us, more = t :: us ∧ IsSeparator t := by
      rcases Bool.or_eq_true_iff.mp hs with hs | hs
      · obtain ⟨t, us, rfl, ht⟩ := startsWith_sound hs
        exact ⟨t, us, rfl, Or.inl ht⟩
      · obtain ⟨t, us, rfl, ht⟩ := startsWith_sound hs
        exact ⟨t, us, rfl, Or.inr ht⟩
    obtain ⟨us, bs, c, hus, hb, hc, rfl⟩ := ih h
    rw [List.drop_one, List.tail_cons] at hus
    exact ⟨ts ++ t :: us, a :: bs, c, by simp [hus], .cons hp ht hb, hc, by simp⟩
  | case4 done tokens _ a more hr _ hc =>
    obtain ⟨ts, rfl, hp⟩ := readAttribute_sound hr
    obtain ⟨c, us, rfl, hc⟩ := startsWith_sound hc
    cases h
    exact ⟨ts, [a], c, rfl, .plain (.one hp), hc, by simp⟩
  | case5 => cases h

theorem readAttributesFrom_complete {ts : List Token} {bs : Attributes} {c : Token}
    (h : Body IsSeparator Pair ts bs) (hc : c.isMark .closeBracket) (done : Attributes) :
    readAttributesFrom done (ts ++ c :: rest) = .ok (done.reverse ++ bs, rest) := by
  induction h using Body.induct generalizing done with
  | empty => simp [readAttributesFrom, startsWith, hc]
  | @last ts a hp =>
    -- the reader looks for the bracket first, and a pair does not begin with one
    have hread := readAttribute_complete hp (c :: rest)
    unfold readAttributesFrom
    rw [if_neg (by simp [hp.not_startsWith])]
    split
    · next e he => simp [hread] at he
    · next he =>
      cases hread.symm.trans he
      simp [startsWith, isMark_iff.mp hc]
  | @cons ts us a bs t hp hs _ ih =>
    have hread := readAttribute_complete hp (t :: (us ++ c :: rest))
    rw [List.append_assoc, List.cons_append]
    unfold readAttributesFrom
    rw [if_neg (by simp [hp.not_startsWith])]
    split
    · next e he => simp [hread] at he
    · next he =>
      cases hread.symm.trans he
      rw [if_pos (by simpa [startsWith, IsSeparator] using hs), List.drop_one, List.tail_cons, ih]
      simp

theorem readAttributes_sound {as : Attributes} (h : readAttributes tokens = .ok (as, rest)) :
    ∃ ts, tokens = ts ++ rest ∧ AttributeList ts as := by
  obtain ⟨⟨_, r⟩, h₁, h₂⟩ := ok_of_bind_ok h
  obtain ⟨o, rfl, ho⟩ := readMark_sound h₁
  obtain ⟨ts, bs, c, rfl, hb, hc, rfl⟩ := readAttributesFrom_sound h₂
  exact ⟨o :: (ts ++ [c]), by simp, .mk ho hb hc⟩

theorem readAttributes_complete {ts : List Token} {as : Attributes} (h : AttributeList ts as) :
    readAttributes (ts ++ rest) = .ok (as, rest) := by
  obtain ⟨ho, hb, hc⟩ := h
  simp only [readAttributes, List.cons_append, List.append_assoc, List.nil_append,
    readMark_complete ho, ok_bind, readAttributesFrom_complete hb hc, List.reverse_nil]

theorem readOptionalAttributes_sound {as : Attributes}
    (h : readOptionalAttributes tokens = .ok (as, rest)) :
    ∃ ts o, tokens = ts ++ rest ∧ Maybe AttributeList ts o ∧ as = o.getD [] := by
  unfold readOptionalAttributes at h
  split at h
  · obtain ⟨ts, rfl, ha⟩ := readAttributes_sound h
    exact ⟨ts, some as, rfl, .some ha, rfl⟩
  · cases h
    exact ⟨[], none, rfl, .none, rfl⟩

theorem readOptionalAttributes_complete {ts : List Token} {o : Option Attributes}
    (h : Maybe AttributeList ts o) (hf : startsWith .openBracket rest = false) :
    readOptionalAttributes (ts ++ rest) = .ok (o.getD [], rest) := by
  unfold readOptionalAttributes
  cases h with
  | none => simp [hf]
  | some ha =>
    rw [if_pos, readAttributes_complete ha]
    · rfl
    · obtain ⟨ho, -, -⟩ := ha
      exact ho

/-! ### Targets of a chain -/

theorem readTargets_sound {done out : List String} (h : readTargets done tokens = .ok (out, rest)) :
    ∃ ts ids, tokens = ts ++ rest ∧ Targets ts ids ∧ out = done.reverse ++ ids := by
  fun_induction readTargets done tokens with
  | case1 =>
    cases h
    exact ⟨[], [], rfl, .nil, by simp⟩
  | case2 => cases h
  | case3 done a ha v more id hv ih =>
    obtain ⟨ts, ids, rfl, ht, rfl⟩ := ih h
    exact ⟨a :: v :: ts, id :: ids, rfl, .cons (by simpa using ha) hv ht, by simp⟩
  | case4 => cases h
  | case5 =>
    cases h
    exact ⟨[], [], rfl, .nil, by simp⟩

/-- Behind an arrow there is a target. -/
theorem readTargets_sound_of_arrow {a : Token} {ids : List String} (ha : a.lexeme = .arrow)
    (h : readTargets [] (a :: tokens) = .ok (ids, rest)) :
    ∃ ts, a :: tokens = ts ++ rest ∧ Targets ts ids ∧ ids ≠ [] := by
  cases tokens with
  | nil => simp [readTargets, ha, refuse] at h
  | cons v more =>
    simp only [readTargets, ha, beq_self_eq_true, if_true] at h
    split at h
    · next id hv =>
      obtain ⟨ts, ids, rfl, ht, rfl⟩ := readTargets_sound h
      exact ⟨a :: v :: ts, rfl, .cons ha hv ht, by simp⟩
    · cases h

/-- A reader of targets ends where there is no arrow. -/
theorem readTargets_complete {ts rest : List Token} {ids : List String}
    (hf : ∀ t ∈ rest.head?, t.lexeme ≠ .arrow) (h : Targets ts ids) (done : List String) :
    readTargets done (ts ++ rest) = .ok (done.reverse ++ ids, rest) := by
  induction h generalizing done with
  | nil =>
    cases rest with
    | nil => simp [readTargets]
    | cons t more =>
      unfold readTargets
      simp [hf t rfl]
  | cons ha hv _ ih => simp [readTargets, ha, hv, ih]

/-! ### Statements -/

theorem readAfterId_sound {f : Token} {first : String} {s : Statement} (hf : f.id? = some first)
    (h : readAfterId first tokens = .ok (s, rest)) :
    ∃ ts, f :: tokens = ts ++ rest ∧ StatementOf ts s := by
  unfold readAfterId at h
  split at h
  · cases h
    exact ⟨[f], rfl, .node hf .none⟩
  · next t more =>
    split_ifs at h with he hd ha
    · obtain ⟨⟨value, r⟩, h₁, h₂⟩ := ok_of_bind_ok h
      obtain ⟨v, rfl, hv⟩ := readId_sound h₁
      cases h₂
      exact ⟨[f, t, v], rfl, .assignment (.mk hf he hv)⟩
    · cases h
    · obtain ⟨⟨ids, r₁⟩, h₁, h'⟩ := ok_of_bind_ok h
      obtain ⟨⟨as, r₂⟩, h₂, h₃⟩ := ok_of_bind_ok h'
      obtain ⟨us, o, rfl, ho, rfl⟩ := readOptionalAttributes_sound h₂
      obtain ⟨ts, hts, ht, hne⟩ := readTargets_sound_of_arrow (by simpa using ha) h₁
      cases h₃
      exact ⟨f :: (ts ++ us), by simp [hts], .chain hf ht hne ho⟩
    · obtain ⟨⟨as, r⟩, h₁, h₂⟩ := ok_of_bind_ok h
      obtain ⟨us, o, hus, ho, rfl⟩ := readOptionalAttributes_sound h₁
      cases h₂
      exact ⟨f :: us, by simp [hus], .node hf ho⟩

theorem readStatement_of_id? {t : Token} {id : String} (h : t.id? = some id) :
    readStatement (t :: rest) = readAfterId id rest := by
  unfold readStatement
  cases hl : t.lexeme <;> simp [Token.id?, hl, Lexeme.id?] at h ⊢ <;> simp [h]

theorem readStatement_sound {s : Statement} (h : readStatement tokens = .ok (s, rest)) :
    ∃ ts, tokens = ts ++ rest ∧ StatementOf ts s := by
  unfold readStatement at h
  split at h
  · cases h
  · next t more =>
    split at h
    · next ht =>
      obtain ⟨⟨as, r⟩, h₁, h₂⟩ := ok_of_bind_ok h
      obtain ⟨ts, rfl, ha⟩ := readAttributes_sound h₁
      cases h₂
      exact ⟨t :: ts, rfl, .graph ht ha⟩
    · next ht =>
      obtain ⟨⟨as, r⟩, h₁, h₂⟩ := ok_of_bind_ok h
      obtain ⟨ts, rfl, ha⟩ := readAttributes_sound h₁
      cases h₂
      exact ⟨t :: ts, rfl, .nodeDefaults ht ha⟩
    · next ht =>
      obtain ⟨⟨as, r⟩, h₁, h₂⟩ := ok_of_bind_ok h
      obtain ⟨ts, rfl, ha⟩ := readAttributes_sound h₁
      cases h₂
      exact ⟨t :: ts, rfl, .edgeDefaults ht ha⟩
    · cases h
    · split at h
      · next hid => exact readAfterId_sound hid h
      · cases h

/-- What may follow a statement. -/
def EndsStatement (rest : List Token) : Prop :=
  startsWith .semicolon rest ∨ startsWith .closeBrace rest

/-- Neither an arrow nor a mark that goes on with a statement follows optional attributes. -/
theorem head_of_optional {us : List Token} {o : Option Attributes} (h : Maybe AttributeList us o)
    (hf : EndsStatement rest) : ∃ t more, us ++ rest = t :: more ∧
      (t.lexeme = .mark .openBracket ∨ t.lexeme = .mark .semicolon ∨
        t.lexeme = .mark .closeBrace) := by
  cases h with
  | none =>
    rcases hf with hf | hf <;> obtain ⟨t, more, rfl, ht⟩ := startsWith_sound hf
    · exact ⟨t, more, rfl, Or.inr (Or.inl (isMark_iff.mp ht))⟩
    · exact ⟨t, more, rfl, Or.inr (Or.inr (isMark_iff.mp ht))⟩
  | some ha =>
    obtain ⟨ho, -, -⟩ := ha
    exact ⟨_, _, rfl, Or.inl (isMark_iff.mp ho)⟩

theorem EndsStatement.not_openBracket (hf : EndsStatement rest) :
    startsWith .openBracket rest = false := by
  rcases hf with hf | hf <;> obtain ⟨t, more, rfl, ht⟩ := startsWith_sound hf <;>
    simp [startsWith, Token.isMark, isMark_iff.mp ht]

theorem readStatement_complete {ts : List Token} {s : Statement} (h : StatementOf ts s)
    (hf : EndsStatement rest) : readStatement (ts ++ rest) = .ok (s, rest) := by
  have hopt : ∀ {us o}, Maybe AttributeList us o → readOptionalAttributes (us ++ rest) = _ :=
    fun h => readOptionalAttributes_complete h hf.not_openBracket
  cases h with
  | assignment h =>
    obtain ⟨hk, he, hv⟩ := h
    simp only [List.cons_append, List.nil_append, readStatement_of_id? hk, readAfterId, he, if_true,
      readId_complete _ hv, ok_bind, List.headD_cons]
    rfl
  | @chain f ts us first ids as hid ht hne ha =>
    obtain ⟨t, more, hhead, htm⟩ := head_of_optional ha hf
    -- behind the targets stand the attributes or the end of the statement, but no arrow
    have harrow : ∀ t ∈ (us ++ rest).head?, t.lexeme ≠ .arrow := by
      rw [hhead]
      rintro t' ⟨⟩
      rcases htm with h | h | h <;> simp [h]
    have hread := readTargets_complete harrow ht []
    cases ht with
    | nil => exact absurd rfl hne
    | @cons a v ts' id ids' harrow hv ht =>
      simp only [List.cons_append, List.append_assoc] at hread ⊢
      rw [readStatement_of_id? hid]
      simp only [readAfterId, Token.isMark, harrow, hread, ok_bind, hopt ha, beq_iff_eq, if_false,
        if_true, reduceCtorEq]
      rfl
  | @node f us id as hid ha =>
    obtain ⟨t, more, hhead, htm⟩ := head_of_optional ha hf
    have hread := hopt ha
    rw [List.cons_append, readStatement_of_id? hid]
    rw [hhead] at hread ⊢
    rcases htm with h | h | h <;>
      simp only [readAfterId, Token.isMark, h, hread, ok_bind, beq_iff_eq, if_false, reduceCtorEq,
        Lexeme.mark.injEq] <;>
      rfl
  | graph ht ha =>
    simp only [List.cons_append, readStatement, ht, readAttributes_complete ha, ok_bind]
    rfl
  | nodeDefaults ht ha =>
    simp only [List.cons_append, readStatement, ht, readAttributes_complete ha, ok_bind]
    rfl
  | edgeDefaults ht ha =>
    simp only [List.cons_append, readStatement, ht, readAttributes_complete ha, ok_bind]
    rfl

/-! ### Statement lists -/

theorem StatementOf.not_closeBrace {ts : List Token} {s : Statement} (h : StatementOf ts s)
    (rest : List Token) : startsWith .closeBrace (ts ++ rest) = false := by
  cases h with
  | assignment h =>
    obtain ⟨hk, -, -⟩ := h
    exact isMark_of_id? hk _
  | chain hf => exact isMark_of_id? hf _
  | node hf => exact isMark_of_id? hf _
  | graph ht => simp [startsWith, Token.isMark, ht]
  | nodeDefaults ht => simp [startsWith, Token.isMark, ht]
  | edgeDefaults ht => simp [startsWith, Token.isMark, ht]

theorem readStatements_sound {done ss : List Statement}
    (h : readStatements done tokens = (ss, .ok rest)) : ∃ ts bs c, tokens = ts ++ c :: rest ∧
      Body IsTerminator StatementOf ts bs ∧ c.isMark .closeBrace ∧ ss = done.reverse ++ bs := by
  fun_induction readStatements done tokens with
  | case1 => cases h
  | case2 done c more hc =>
    cases h
    exact ⟨[], [], c, rfl, .empty, hc, by simp⟩
  | case3 => cases h
  | case4 done t tokens _ s more hr hs ih =>
    obtain ⟨ts, hts, hst⟩ := readStatement_sound hr
    obtain ⟨u, us, rfl, hu⟩ := startsWith_sound hs
    obtain ⟨vs, bs, c, hvs, hb, hc, rfl⟩ := ih h
    rw [List.drop_one, List.tail_cons] at hvs
    exact ⟨ts ++ u :: vs, s :: bs, c, by simp [hts, hvs], .cons hst hu hb, hc, by simp⟩
  | case5 done t tokens _ s more hr _ hc =>
    obtain ⟨ts, hts, hst⟩ := readStatement_sound hr
    obtain ⟨c, us, rfl, hc⟩ := startsWith_sound hc
    cases h
    exact ⟨ts, [s], c, by simp [hts], .plain (.one hst), hc, by simp⟩
  | case6 => cases h

theorem readStatements_cons {ts rest : List Token} {s : Statement} (h : StatementOf ts s)
    (hf : EndsStatement rest) (done : List Statement) : readStatements done (ts ++ rest) =
      if startsWith .semicolon rest then readStatements (s :: done) (rest.drop 1)
      else ((s :: done).reverse, .ok (rest.drop 1)) := by
  have hread := readStatement_complete h hf
  have hclose := h.not_closeBrace rest
  -- a statement is not empty: the reader refuses an empty list
  obtain ⟨t, more, htm⟩ : ∃ t more, ts ++ rest = t :: more :=
    List.exists_cons_of_ne_nil fun hnil => by simp [hnil, readStatement, refuse] at hread
  rw [htm] at hread hclose ⊢
  have hc : t.isMark .closeBrace = false := hclose
  rw [readStatements, if_neg (by simp [hc])]
  split
  · next e he => simp [hread] at he
  · next he =>
    cases hread.symm.trans he
    by_cases hs : startsWith .semicolon rest
    · rw [if_pos hs, if_pos hs]
    · rw [if_neg hs, if_neg hs, if_pos (hf.resolve_left hs)]

theorem readStatements_complete {ts : List Token} {bs : List Statement} {c : Token}
    (h : Body IsTerminator StatementOf ts bs) (hc : c.isMark .closeBrace)
    (done : List Statement) :
    readStatements done (ts ++ c :: rest) = (done.reverse ++ bs, .ok rest) := by
  induction h using Body.induct generalizing done with
  | empty =>
    unfold readStatements
    simp [hc]
  | @last ts s hs =>
    have hends : EndsStatement (c :: rest) := Or.inr hc
    rw [readStatements_cons hs hends]
    simp [startsWith, Token.isMark, isMark_iff.mp hc]
  | @cons ts us s bs t hs ht _ ih =>
    have hends : EndsStatement (t :: (us ++ c :: rest)) := Or.inl ht
    have hstarts : startsWith .semicolon (t :: (us ++ c :: rest)) := ht
    rw [List.append_assoc, List.cons_append, readStatements_cons hs hends, if_pos hstarts,
      List.drop_one, List.tail_cons, ih]
    simp

/-! ### Whole token lists -/

theorem dropStrict_sound (tokens : List Token) :
    ∃ ts o, tokens = ts ++ dropStrict tokens ∧ Maybe (Word .strict) ts o := by
  cases tokens with
  | nil => exact ⟨[], none, rfl, .none⟩
  | cons t rest =>
    by_cases hs : t.lexeme = .keyword .strict
    · exact ⟨[t], some (), by simp [dropStrict, hs], .some (.mk hs)⟩
    · exact ⟨[], none, by simp [dropStrict, hs], .none⟩

theorem readHead_sound {name : Option String} (h : readHead tokens = .ok (name, rest)) :
    ∃ ss d ns o strict, tokens = ss ++ d :: (ns ++ o :: rest) ∧ Maybe (Word .strict) ss strict ∧
      d.lexeme = .keyword .digraph ∧ Maybe Id ns name ∧ o.isMark .openBrace := by
  obtain ⟨ss, strict, htokens, hstrict⟩ := dropStrict_sound tokens
  unfold readHead at h
  split at h
  · cases h
  · next d more hd =>
    split_ifs at h with hg hdi
    · cases h
    · cases h
    · rw [hd] at htokens
      have hdi : d.lexeme = .keyword .digraph := by simpa using hdi
      obtain ⟨⟨_, r⟩, h₁, h₂⟩ := ok_of_bind_ok h
      obtain ⟨o, ho, hmark⟩ := readMark_sound h₁
      cases h₂
      cases hname : more.head?.bind (·.id?) with
      | none =>
        simp only [hname, Option.isSome_none, Bool.false_eq_true, if_false] at ho
        exact ⟨ss, d, [], o, strict, by rw [htokens, ho]; rfl, hstrict, hdi, .none, hmark⟩
      | some id =>
        simp only [hname, Option.isSome_some, if_true] at ho
        obtain ⟨n, hn, hid⟩ := Option.bind_eq_some_iff.mp hname
        obtain ⟨more', rfl⟩ := List.head?_eq_some_iff.mp hn
        rw [List.drop_one, List.tail_cons] at ho
        exact ⟨ss, d, [n], o, strict, by rw [htokens, ho]; rfl, hstrict, hdi, .some (.mk hid),
          hmark⟩

theorem readHead_complete {ss ns : List Token} {d o : Token} {strict : Option Unit}
    {name : Option String} (hs : Maybe (Word .strict) ss strict) (hd : d.lexeme = .keyword .digraph)
    (hn : Maybe Id ns name) (ho : o.isMark .openBrace) :
    readHead (ss ++ d :: (ns ++ o :: rest)) = .ok (name, rest) := by
  have hstrict : dropStrict (ss ++ d :: (ns ++ o :: rest)) = d :: (ns ++ o :: rest) := by
    cases hs with
    | none => simp [dropStrict, hd]
    | some h =>
      obtain ⟨ht⟩ := h
      simp [dropStrict, ht]
  unfold readHead
  rw [hstrict]
  cases hn with
  | none =>
    simp only [List.nil_append, hd, List.head?_cons, Option.bind_some, id?_of_isMark ho,
      Option.isSome_none, readMark_complete ho, ok_bind, bne_self_eq_false, Bool.false_eq_true,
      if_false]
    rfl
  | some h =>
    obtain ⟨hid⟩ := h
    simp only [List.cons_append, List.nil_append, hd, List.head?_cons, Option.bind_some, hid,
      Option.isSome_some, List.drop_one, List.tail_cons, readMark_complete ho, ok_bind,
      bne_self_eq_false, Bool.false_eq_true, if_false, if_true]
    rfl

theorem readGraph_sound (h : (readGraph tokens).refusal = none) :
    Sentence tokens (readGraph tokens).name (readGraph tokens).statements := by
  unfold readGraph at h ⊢
  split at h
  · cases h
  · next name rest hhead =>
    obtain ⟨ss, d, ns, o, strict, rfl, hs, hd, hn, ho⟩ := readHead_sound hhead
    rcases hbody : readStatements [] rest with ⟨statements, e | _ | ⟨t, more⟩⟩ <;>
      rw [hbody] at h
    · cases h
    · obtain ⟨ts, bs, c, rfl, hb, hc, rfl⟩ := readStatements_sound hbody
      exact .mk hs hd hn ho hb hc
    · cases h

theorem readGraph_complete {name : Option String} {ss : List Statement}
    (h : Sentence tokens name ss) : readGraph tokens = ⟨name, ss, none⟩ := by
  obtain ⟨hs, hd, hn, ho, hb, hc⟩ := h
  unfold readGraph
  rw [readHead_complete hs hd hn ho]
  simp [readStatements_complete hb hc]

/-- A token list says one thing only. -/
theorem Sentence.unique {name name' : Option String} {ss ss' : List Statement}
    (h : Sentence tokens name ss) (h' : Sentence tokens name' ss') : name = name' ∧ ss = ss' := by
  have heq := (readGraph_complete h).symm.trans (readGraph_complete h')
  cases heq
  exact ⟨rfl, rfl⟩

end Scrawl.Description
