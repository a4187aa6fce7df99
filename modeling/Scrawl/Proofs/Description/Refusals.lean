import Scrawl.Proofs.Description.Drafts
import Scrawl.Proofs.Description.Syntax

/-!
# Scrawl.Proofs.Description.Refusals — the tokens that faults are reported at

A reader goes along its tokens: what it leaves is a suffix of them, and what it refuses is the first
token of a suffix, or the end.  So every fault of a token list has the text and the place of one of
its tokens, or it is at the end of the text, or the graph is too large.

* `Along`: a reader goes along the tokens; `Along.bind` puts two readers one behind the other.
* `along_statement`, `refusal_of_readGraph`: the reader of a statement, and of a whole list.
* `place_mem_of_readGraph`: a fault in what a statement says is reported at a token.
* `ofTokens_fault`: the faults of a token list.
-/

namespace Scrawl.Description

/-- The refusal is of the first token of a suffix, or of the end. -/
def Refusal.OneOf (e : Refusal) (tokens : List Token) : Prop :=
  ∃ us, us <:+ tokens ∧ e.token = us.head?

theorem Refusal.OneOf.mono {e : Refusal} {tokens us : List Token} (h : e.OneOf us)
    (hs : us <:+ tokens) : e.OneOf tokens := by
  obtain ⟨vs, hv, he⟩ := h
  exact ⟨vs, hv.trans hs, he⟩

theorem Refusal.OneOf.mem {e : Refusal} {tokens : List Token} (h : e.OneOf tokens) {t : Token}
    (ht : e.token = some t) : t ∈ tokens := by
  obtain ⟨us, hs, he⟩ := h
  exact hs.subset (List.mem_of_head? (he ▸ ht))

/-- What the reader leaves is a suffix of the tokens, and so is what begins with the token that it
refuses. -/
structure Along (tokens : List Token) {β : Type} (x : Except Refusal (β × List Token)) : Prop where
  leaves : ∀ b rest, x = .ok (b, rest) → rest <:+ tokens
  refuses : ∀ e, x = .error e → e.OneOf tokens

namespace Along

variable {β γ : Type} {tokens us : List Token}

theorem pure (b : β) (hs : us <:+ tokens) : Along tokens (.ok (b, us)) := by
  refine ⟨fun b' rest h => ?_, fun e h => ?_⟩
  · cases h
    exact hs
  · cases h

theorem error {e : Refusal} (he : e.OneOf tokens) :
    Along tokens (.error e : Except Refusal (β × List Token)) := by
  refine ⟨fun b rest h => ?_, fun e' h => ?_⟩
  · cases h
  · cases h
    exact he

theorem refuse (cause : Cause) (hs : us <:+ tokens) :
    Along tokens (Description.refuse cause us : Except Refusal (β × List Token)) :=
  .error ⟨us, hs, rfl⟩

theorem mono {x : Except Refusal (β × List Token)} (h : Along us x) (hs : us <:+ tokens) :
    Along tokens x :=
  ⟨fun b rest hx => (h.leaves b rest hx).trans hs, fun e hx => (h.refuses e hx).mono hs⟩

/-- A reader may go on where another one has stopped. -/
theorem bind {x : Except Refusal (β × List Token)}
    {f : β × List Token → Except Refusal (γ × List Token)} (hx : Along tokens x)
    (hf : ∀ b rest, x = .ok (b, rest) → Along rest (f (b, rest))) : Along tokens (x >>= f) := by
  cases x with
  | error e =>
    exact .error (hx.refuses e rfl)
  | ok p =>
    obtain ⟨b, rest⟩ := p
    exact (hf b rest rfl).mono (hx.leaves b rest rfl)

end Along

/-! ### Readers -/

section Readers

variable (tokens : List Token)

theorem along_id (cause : Cause) : Along tokens (readId cause tokens) := by
  unfold readId
  split
  · exact .refuse cause List.suffix_rfl
  · split
    · exact .pure _ (List.suffix_cons _ _)
    · exact .refuse cause List.suffix_rfl

theorem along_mark (m : Mark) : Along tokens (readMark m tokens) := by
  unfold readMark
  split
  · exact .refuse _ List.suffix_rfl
  · split
    · exact .pure _ (List.suffix_cons _ _)
    · exact .refuse _ List.suffix_rfl

theorem along_attribute : Along tokens (readAttribute tokens) :=
  (along_id tokens _).bind fun _ r₁ _ => (along_mark r₁ _).bind fun _ r₂ _ =>
    (along_id r₂ _).bind fun _ _ _ => .pure _ List.suffix_rfl

theorem along_attributesFrom (done : Attributes) :
    Along tokens (readAttributesFrom done tokens) := by
  fun_induction readAttributesFrom done tokens with
  | case1 done tokens => exact .pure _ (List.drop_suffix 1 tokens)
  | case2 done tokens _ e h =>
    exact .error ((along_attribute tokens).refuses e h)
  | case3 done tokens _ a more h _ ih =>
    exact ih.mono ((List.drop_suffix 1 more).trans ((along_attribute tokens).leaves a more h))
  | case4 done tokens _ a more h =>
    exact .pure _ ((List.drop_suffix 1 more).trans ((along_attribute tokens).leaves a more h))
  | case5 done tokens _ a more h => exact .refuse _ ((along_attribute tokens).leaves a more h)

theorem along_attributes : Along tokens (readAttributes tokens) :=
  (along_mark tokens _).bind fun _ rest _ => along_attributesFrom rest []

theorem along_optionalAttributes : Along tokens (readOptionalAttributes tokens) := by
  unfold readOptionalAttributes
  split
  · exact along_attributes tokens
  · exact .pure _ List.suffix_rfl

theorem along_targets (done : List String) : Along tokens (readTargets done tokens) := by
  fun_induction readTargets done tokens with
  | case1 => exact .pure _ List.suffix_rfl
  | case2 done t => exact .refuse _ (List.suffix_cons t [])
  | case3 done t _ u more _ _ ih =>
    exact ih.mono ((List.suffix_cons u more).trans (List.suffix_cons t _))
  | case4 done t _ u more => exact .refuse _ (List.suffix_cons t _)
  | case5 => exact .pure _ List.suffix_rfl

theorem along_afterId (first : String) : Along tokens (readAfterId first tokens) := by
  unfold readAfterId
  split
  · exact .pure _ List.suffix_rfl
  · next t rest =>
    split_ifs
    · exact ((along_id rest _).mono (List.suffix_cons t rest)).bind
        fun _ _ _ => .pure _ List.suffix_rfl
    · exact .refuse _ List.suffix_rfl
    · exact (along_targets (t :: rest) []).bind fun _ r _ =>
        (along_optionalAttributes r).bind fun _ _ _ => .pure _ List.suffix_rfl
    · exact (along_optionalAttributes (t :: rest)).bind fun _ _ _ => .pure _ List.suffix_rfl

/-- **The reader of a statement goes along its tokens.** -/
theorem along_statement : Along tokens (readStatement tokens) := by
  unfold readStatement
  split
  · exact .refuse _ List.suffix_rfl
  · next t rest =>
    have hlist : Along (t :: rest) (readAttributes rest) :=
      (along_attributes rest).mono (List.suffix_cons t rest)
    split
    · exact hlist.bind fun _ _ _ => .pure _ List.suffix_rfl
    · exact hlist.bind fun _ _ _ => .pure _ List.suffix_rfl
    · exact hlist.bind fun _ _ _ => .pure _ List.suffix_rfl
    · exact .refuse _ List.suffix_rfl
    · split
      · exact (along_afterId rest _).mono (List.suffix_cons t rest)
      · exact .refuse _ List.suffix_rfl

end Readers

/-! ### Statement lists -/

/-- A fault in what the statement says is reported at one of the tokens. -/
def Statement.PlacedIn (tokens : List Token) : Statement → Prop
  | graphAttributes _ place => place ∈ tokens
  | _ => True

theorem Statement.PlacedIn.mono {s : Statement} {tokens us : List Token} (h : s.PlacedIn us)
    (hs : us ⊆ tokens) : s.PlacedIn tokens := by
  cases s with
  | graphAttributes as place => exact hs h
  | nodeDefaults | edgeDefaults | chain | node => trivial

theorem StatementOf.placedIn {ts : List Token} {s : Statement} (h : StatementOf ts s) :
    s.PlacedIn ts := by
  cases h with
  | @assignment k e v => show v ∈ [k, e, v]; simp
  | @graph t us => show t ∈ t :: us; simp
  | chain | node | nodeDefaults | edgeDefaults => trivial

theorem placedIn_of_readStatement {tokens rest : List Token} {s : Statement}
    (h : readStatement tokens = .ok (s, rest)) : s.PlacedIn tokens := by
  obtain ⟨ts, rfl, hs⟩ := readStatement_sound h
  exact hs.placedIn.mono (List.subset_append_left ts rest)

section Lists

variable {tokens : List Token} {done : List Statement}

theorem placedIn_of_readStatements {all : List Token} (hall : tokens <:+ all)
    (hdone : ∀ s ∈ done, s.PlacedIn all) : ∀ s ∈ (readStatements done tokens).1, s.PlacedIn all := by
  fun_induction readStatements done tokens with
  | case1 done => simpa using hdone
  | case2 done => simpa using hdone
  | case3 done => simpa using hdone
  | case4 done t tokens _ s more hr _ ih =>
    have hs := (placedIn_of_readStatement hr).mono hall.subset
    have hmore := (along_statement _).leaves s more hr
    exact ih (((List.drop_suffix 1 more).trans hmore).trans hall)
      (List.forall_mem_cons.mpr ⟨hs, hdone⟩)
  | case5 done t tokens _ s more hr =>
    have hs := (placedIn_of_readStatement hr).mono hall.subset
    intro u hu
    rw [List.mem_reverse] at hu
    exact List.forall_mem_cons.mpr ⟨hs, hdone⟩ u hu
  | case6 done t tokens _ s more hr =>
    have hs := (placedIn_of_readStatement hr).mono hall.subset
    intro u hu
    rw [List.mem_reverse] at hu
    exact List.forall_mem_cons.mpr ⟨hs, hdone⟩ u hu

theorem refusal_of_readStatements {e : Refusal}
    (h : (readStatements done tokens).2 = .error e) : e.OneOf tokens := by
  fun_induction readStatements done tokens with
  | case1 =>
    cases h
    exact ⟨[], List.suffix_rfl, rfl⟩
  | case2 => cases h
  | case3 done t rest _ e' hr =>
    cases h
    exact (along_statement _).refuses e hr
  | case4 done t rest _ s more hr _ ih =>
    exact (ih h).mono ((List.drop_suffix 1 more).trans ((along_statement _).leaves s more hr))
  | case5 => cases h
  | case6 done t rest _ s more hr =>
    cases h
    exact ⟨more, (along_statement _).leaves s more hr, rfl⟩

theorem suffix_of_readStatements {rest : List Token}
    (h : (readStatements done tokens).2 = .ok rest) : rest <:+ tokens := by
  obtain ⟨ts, bs, c, rfl, -⟩ := readStatements_sound (Prod.ext rfl h)
  exact ⟨ts ++ [c], by simp⟩

end Lists

/-! ### Whole token lists -/

section Whole

variable {tokens : List Token}

theorem dropStrict_suffix (tokens : List Token) : dropStrict tokens <:+ tokens := by
  obtain ⟨ts, _, h, -⟩ := dropStrict_sound tokens
  exact ⟨ts, h.symm⟩

theorem along_head (tokens : List Token) : Along tokens (readHead tokens) := by
  have hdrop := dropStrict_suffix tokens
  unfold readHead
  split
  · exact .refuse _ (List.nil_suffix)
  · next d more hd =>
    rw [hd] at hdrop
    split_ifs
    · exact .refuse _ hdrop
    · exact .refuse _ hdrop
    · have hname : (if (more.head?.bind (·.id?)).isSome then more.drop 1 else more) <:+ tokens := by
        have hmore := (List.suffix_cons d more).trans hdrop
        split_ifs
        · exact (List.drop_suffix 1 more).trans hmore
        · exact hmore
      exact ((along_mark _ _).mono hname).bind fun _ _ _ => .pure _ List.suffix_rfl

theorem place_mem_of_readGraph : ∀ s ∈ (readGraph tokens).statements, s.PlacedIn tokens := by
  unfold readGraph
  split
  · exact fun s hs => absurd hs List.not_mem_nil
  · next name rest h =>
    exact placedIn_of_readStatements ((along_head tokens).leaves name rest h)
      fun s hs => absurd hs List.not_mem_nil

theorem refusal_of_readGraph {e : Refusal} (h : (readGraph tokens).refusal = some e) :
    e.OneOf tokens := by
  unfold readGraph at h
  split at h
  · next e' he =>
    cases h
    exact (along_head tokens).refuses e he
  · next name rest hr =>
    have hrest := (along_head tokens).leaves name rest hr
    rcases hbody : readStatements [] rest with ⟨statements, e' | _ | ⟨t, more⟩⟩ <;> rw [hbody] at h
    · cases h
      exact (refusal_of_readStatements (congrArg Prod.snd hbody)).mono hrest
    · cases h
    · cases h
      exact ⟨t :: more, (suffix_of_readStatements (congrArg Prod.snd hbody)).trans hrest, rfl⟩

/-! ### Faults -/

theorem actFrom_fault {finish : Position} {d : Draft} {statements : List Statement} {f : Fault}
    (h : actFrom finish d statements = .error f) : ∃ attributes place cause,
      Statement.graphAttributes attributes place ∈ statements ∧
        f = faultAt cause finish (some place) := by
  induction statements generalizing d with
  | nil => cases h
  | cons s statements ih =>
    rw [actFrom_cons] at h
    cases hact : d.act s with
    | ok d' =>
      rw [hact] at h
      obtain ⟨as, place, cause, hmem, hf⟩ := ih h
      exact ⟨as, place, cause, List.mem_cons_of_mem s hmem, hf⟩
    | error e =>
      obtain ⟨cause, token⟩ := e
      rw [hact] at h
      -- only a graph attribute can be refused
      cases s with
      | graphAttributes as place =>
        refine ⟨as, place, cause, List.mem_cons_self, ?_⟩
        rw [Draft.act] at hact
        split at hact <;> cases hact
        cases h
        rfl
      | nodeDefaults | edgeDefaults | chain | node => cases hact

/-- **The faults of a token list** are at a token or at the end of the text, or the graph is too
large. -/
theorem ofTokens_fault {s : Scan} {f : Fault} (h : ofTokens s = .error f) :
    (∃ t ∈ s.tokens, f.fragment = String.ofList t.raw ∧ f.position = some t.position) ∨
    (f.fragment = "<end of input>" ∧ f.position = some s.finish) ∨
    ∃ nodes edges, f = ⟨.tooLarge nodes edges, "", none⟩ := by
  rcases error_of_bind_error h with h | ⟨d, -, h⟩
  · obtain ⟨as, place, cause, hmem, rfl⟩ := actFrom_fault h
    exact Or.inl ⟨place, place_mem_of_readGraph _ hmem, rfl, rfl⟩
  · cases hr : (readGraph s.tokens).refusal with
    | some r =>
      rw [hr] at h
      cases h
      cases ht : r.token with
      | some t => exact Or.inl ⟨t, (refusal_of_readGraph hr).mem ht, rfl, rfl⟩
      | none => exact Or.inr (Or.inl ⟨rfl, rfl⟩)
    | none =>
      rw [hr] at h
      dsimp only at h
      split_ifs at h <;> cases h
      exact Or.inr (Or.inr ⟨_, _, rfl⟩)

end Whole

end Scrawl.Description
