import Scrawl.Proofs.Description.Drafts

/-!
# Scrawl.Proofs.Description.Unplaced — what is read does not depend on places

Readers look at the lexemes of tokens, and a fault tells the text of one.  The places of tokens are
handed on only, so token lists that differ in them are read alike.

* `unplacedRead_bind`: a reader may go on where another one has stopped.
* `readStatement_unplaced`, `readGraph_unplaced`: each reader on tokens without places.
* `ofTokens_unplaced`: the graph of a token list, or its fault but for the place.
-/

namespace Scrawl.Description

/-- The token with its place forgotten. -/
def Token.unplaced (t : Token) : Token := { t with position := {} }

/-- The refusal with the place of its token forgotten. -/
def Refusal.unplaced (e : Refusal) : Refusal := { e with token := e.token.map .unplaced }

/-- The statement with the place of its token forgotten. -/
def Statement.unplaced : Statement → Statement
  | graphAttributes attributes place => graphAttributes attributes place.unplaced
  | s => s

/-- The script with the places of its tokens forgotten. -/
def Script.unplaced (s : Script) : Script :=
  ⟨s.name, s.statements.map .unplaced, s.refusal.map .unplaced⟩

/-- The fault without its place. -/
def Fault.unplaced (f : Fault) : Fault := { f with position := none }

@[simp] theorem Token.unplaced_lexeme (t : Token) : t.unplaced.lexeme = t.lexeme := rfl

@[simp] theorem Token.unplaced_raw (t : Token) : t.unplaced.raw = t.raw := rfl

@[simp] theorem Token.unplaced_id? (t : Token) : t.unplaced.id? = t.id? := rfl

@[simp] theorem Token.unplaced_isMark (t : Token) (m : Mark) : t.unplaced.isMark m = t.isMark m :=
  rfl

/-! ### Readers -/

/-- What a reader gives, with all places forgotten. -/
def unplacedRead {β γ : Type} (f : β → γ) :
    Except Refusal (β × List Token) → Except Refusal (γ × List Token)
  | .ok (b, rest) => .ok (f b, rest.map .unplaced)
  | .error e => .error e.unplaced

section Readers

variable {β γ β' γ' : Type}

/-- A reader may go on where another one has stopped. -/
theorem unplacedRead_bind {f : β → β'} {g : γ → γ'} {x : Except Refusal (β × List Token)}
    {k : β × List Token → Except Refusal (γ × List Token)}
    {k' : β' × List Token → Except Refusal (γ' × List Token)}
    (h : ∀ b rest, x = .ok (b, rest) →
      k' (f b, rest.map .unplaced) = unplacedRead g (k (b, rest))) :
    (unplacedRead f x >>= k') = unplacedRead g (x >>= k) := by
  cases x with
  | error e => rfl
  | ok p => exact h p.1 p.2 rfl

theorem refuse_unplaced (g : β → γ) (cause : Cause) (tokens : List Token) :
    refuse cause (tokens.map .unplaced) = unplacedRead g (refuse cause tokens) := by
  rw [refuse, List.head?_map]
  rfl

theorem startsWith_unplaced (m : Mark) (tokens : List Token) :
    startsWith m (tokens.map .unplaced) = startsWith m tokens := by
  cases tokens <;> rfl

theorem readId_unplaced (cause : Cause) (tokens : List Token) :
    readId cause (tokens.map .unplaced) = unplacedRead id (readId cause tokens) := by
  cases tokens with
  | nil => rfl
  | cons t rest =>
    rw [List.map_cons, readId, readId, Token.unplaced_id?]
    cases t.id? <;> rfl

theorem readMark_unplaced (m : Mark) (tokens : List Token) :
    readMark m (tokens.map .unplaced) = unplacedRead id (readMark m tokens) := by
  cases tokens with
  | nil => rfl
  | cons t rest =>
    rw [List.map_cons, readMark, readMark, Token.unplaced_isMark]
    cases t.isMark m <;> rfl

theorem readAttribute_unplaced (tokens : List Token) :
    readAttribute (tokens.map .unplaced) = unplacedRead id (readAttribute tokens) := by
  unfold readAttribute
  rw [readId_unplaced]
  refine unplacedRead_bind fun key rest _ => ?_
  dsimp only
  rw [readMark_unplaced]
  refine unplacedRead_bind fun _ rest _ => ?_
  dsimp only
  rw [readId_unplaced]
  exact unplacedRead_bind fun value rest _ => rfl

/-- One attribute, and the list behind it. -/
theorem readAttributesFrom_eq (done : Attributes) (tokens : List Token) :
    readAttributesFrom done tokens =
      if startsWith .closeBracket tokens then .ok (done.reverse, tokens.drop 1)
      else readAttribute tokens >>= fun p =>
        if startsWith .comma p.2 || startsWith .semicolon p.2 then
          readAttributesFrom (p.1 :: done) (p.2.drop 1)
        else if startsWith .closeBracket p.2 then .ok ((p.1 :: done).reverse, p.2.drop 1)
        else refuse .expectedSeparator p.2 := by
  rw [readAttributesFrom.eq_def]
  cases readAttribute tokens <;> rfl

theorem readAttributesFrom_unplaced (done : Attributes) (tokens : List Token) :
    readAttributesFrom done (tokens.map .unplaced) =
      unplacedRead id (readAttributesFrom done tokens) := by
  induction hn : tokens.length using Nat.strong_induction_on generalizing done tokens with
  | _ n ih =>
    subst hn
    rw [readAttributesFrom_eq, readAttributesFrom_eq done tokens, startsWith_unplaced,
      readAttribute_unplaced]
    split_ifs
    · rw [← List.map_drop]
      rfl
    · refine unplacedRead_bind fun a more h => ?_
      have hless := readAttribute_length h
      dsimp only
      rw [startsWith_unplaced, startsWith_unplaced, startsWith_unplaced]
      split_ifs
      · rw [← List.map_drop]
        exact ih _ (by rw [List.length_drop]; omega) _ _ rfl
      · rw [← List.map_drop]
        rfl
      · exact refuse_unplaced _ _ _

theorem readAttributes_unplaced (tokens : List Token) :
    readAttributes (tokens.map .unplaced) = unplacedRead id (readAttributes tokens) := by
  unfold readAttributes
  rw [readMark_unplaced]
  exact unplacedRead_bind fun _ rest _ => readAttributesFrom_unplaced [] rest

theorem readOptionalAttributes_unplaced (tokens : List Token) :
    readOptionalAttributes (tokens.map .unplaced) =
      unplacedRead id (readOptionalAttributes tokens) := by
  unfold readOptionalAttributes
  rw [startsWith_unplaced]
  split_ifs
  · exact readAttributes_unplaced tokens
  · rfl

theorem readTargets_unplaced (done : List String) (tokens : List Token) :
    readTargets done (tokens.map .unplaced) = unplacedRead id (readTargets done tokens) := by
  fun_induction readTargets done tokens with
  | case1 => rfl
  | case2 done t harrow =>
    rw [List.map_cons, readTargets.eq_def]
    exact if_pos harrow
  | case3 done t harrow u more id hid ih =>
    rw [List.map_cons, List.map_cons, readTargets.eq_def]
    dsimp only
    rw [Token.unplaced_lexeme, if_pos harrow, Token.unplaced_id?, hid]
    exact ih
  | case4 done t harrow u more hid =>
    rw [List.map_cons, List.map_cons, readTargets.eq_def]
    dsimp only
    rw [Token.unplaced_lexeme, if_pos harrow, Token.unplaced_id?, hid]
    rfl
  | case5 done t rest harrow =>
    rw [List.map_cons, readTargets.eq_def]
    exact if_neg harrow

theorem readAfterId_unplaced (first : String) (tokens : List Token) :
    readAfterId first (tokens.map .unplaced) =
      unplacedRead Statement.unplaced (readAfterId first tokens) := by
  cases tokens with
  | nil => rfl
  | cons t rest =>
    rw [List.map_cons, readAfterId, readAfterId, Token.unplaced_isMark, Token.unplaced_lexeme]
    split_ifs
    · rw [readId_unplaced]
      refine unplacedRead_bind fun value more _ => ?_
      cases rest <;> rfl
    · rfl
    · rw [← List.map_cons, readTargets_unplaced]
      refine unplacedRead_bind fun targets rest _ => ?_
      dsimp only
      rw [readOptionalAttributes_unplaced]
      exact unplacedRead_bind fun _ rest _ => rfl
    · rw [← List.map_cons, readOptionalAttributes_unplaced]
      exact unplacedRead_bind fun _ rest _ => rfl

/-- **The reader of a statement does not look at places.** -/
theorem readStatement_unplaced (tokens : List Token) :
    readStatement (tokens.map .unplaced) =
      unplacedRead Statement.unplaced (readStatement tokens) := by
  cases tokens with
  | nil => rfl
  | cons t rest =>
    rw [List.map_cons, readStatement, readStatement, Token.unplaced_lexeme]
    split
    · rw [readAttributes_unplaced]
      exact unplacedRead_bind fun _ _ _ => rfl
    · rw [readAttributes_unplaced]
      exact unplacedRead_bind fun _ _ _ => rfl
    · rw [readAttributes_unplaced]
      exact unplacedRead_bind fun _ _ _ => rfl
    · rfl
    · rw [Token.unplaced_id?]
      cases t.id? with
      | none => rfl
      | some first => exact readAfterId_unplaced first rest

end Readers

/-! ### Statement lists -/

/-- What is left behind statements, or the refusal, with all places forgotten. -/
def unplacedTail : Except Refusal (List Token) → Except Refusal (List Token)
  | .ok rest => .ok (rest.map .unplaced)
  | .error e => .error e.unplaced

/-- One statement, and the list behind it. -/
theorem readStatements_eq (done : List Statement) (t : Token) (tokens : List Token) :
    readStatements done (t :: tokens) =
      if t.isMark .closeBrace then (done.reverse, .ok tokens)
      else match readStatement (t :: tokens) with
        | .error e => (done.reverse, .error e)
        | .ok (s, more) =>
          if startsWith .semicolon more then readStatements (s :: done) (more.drop 1)
          else if startsWith .closeBrace more then ((s :: done).reverse, .ok (more.drop 1))
          else ((s :: done).reverse, refuse .expectedSemicolon more) := by
  rw [readStatements.eq_def]
  dsimp only
  cases readStatement (t :: tokens) <;> rfl

theorem readStatements_unplaced (done : List Statement) (tokens : List Token) :
    readStatements (done.map .unplaced) (tokens.map .unplaced) =
      ((readStatements done tokens).1.map .unplaced,
        unplacedTail (readStatements done tokens).2) := by
  induction hn : tokens.length using Nat.strong_induction_on generalizing done tokens with
  | _ n ih =>
    subst hn
    cases tokens with
    | nil =>
      rw [List.map_nil, readStatements.eq_def, readStatements.eq_def, List.map_reverse]
      rfl
    | cons t tokens =>
      have hread := readStatement_unplaced (t :: tokens)
      rw [List.map_cons] at hread ⊢
      rw [readStatements_eq, readStatements_eq done, Token.unplaced_isMark, hread]
      split_ifs
      · rw [List.map_reverse]
        rfl
      · cases h : readStatement (t :: tokens) with
        | error e =>
          rw [List.map_reverse]
          rfl
        | ok p =>
          obtain ⟨s, more⟩ := p
          have hless := readStatement_length h
          dsimp only [unplacedRead]
          rw [startsWith_unplaced, startsWith_unplaced]
          split_ifs
          · rw [← List.map_drop]
            exact ih _ (by rw [List.length_drop]; omega) (s :: done) _ rfl
          · rw [← List.map_drop, List.map_reverse]
            rfl
          · rw [refuse, List.head?_map, List.map_reverse]
            rfl

theorem dropStrict_unplaced (tokens : List Token) :
    dropStrict (tokens.map .unplaced) = (dropStrict tokens).map .unplaced := by
  cases tokens with
  | nil => rfl
  | cons t rest =>
    rw [List.map_cons, dropStrict, dropStrict, Token.unplaced_lexeme]
    split_ifs <;> rfl

theorem readHead_unplaced (tokens : List Token) :
    readHead (tokens.map .unplaced) = unplacedRead id (readHead tokens) := by
  unfold readHead
  rw [dropStrict_unplaced]
  cases dropStrict tokens with
  | nil => rfl
  | cons t rest =>
    have hname : (rest.map Token.unplaced).head?.bind (·.id?) = rest.head?.bind (·.id?) := by
      cases rest <;> rfl
    rw [List.map_cons]
    dsimp only
    rw [Token.unplaced_lexeme, hname]
    split_ifs
    · rfl
    · rfl
    · rw [← List.map_drop, readMark_unplaced]
      exact unplacedRead_bind fun _ _ _ => rfl
    · rw [readMark_unplaced]
      exact unplacedRead_bind fun _ _ _ => rfl

theorem readGraph_unplaced (tokens : List Token) :
    readGraph (tokens.map .unplaced) = (readGraph tokens).unplaced := by
  have hhead := readHead_unplaced tokens
  unfold readGraph
  rw [hhead]
  cases readHead tokens with
  | error e => rfl
  | ok head =>
    have hbody := readStatements_unplaced [] head.2
    rw [List.map_nil] at hbody
    simp only [unplacedRead, hbody]
    rcases readStatements [] head.2 with ⟨statements, e | _ | ⟨t, rest⟩⟩ <;> rfl

/-! ### Faults -/

section Faults

variable {d : Draft} {finish finish' : Position}

/-- What two runs differ in may be dropped from their faults step by step. -/
theorem mapError_bind_congr {ε ε' β γ : Type} {f : ε → ε'} {x y : Except ε β}
    {k k' : β → Except ε γ} (h : x.mapError f = y.mapError f)
    (hk : ∀ b, (k b).mapError f = (k' b).mapError f) :
    (x >>= k).mapError f = (y >>= k').mapError f := by
  cases x with
  | error e =>
    cases y with
    | error e' => exact congrArg Except.error (Except.error.inj h)
    | ok b => cases h
  | ok b =>
    cases y with
    | error e' => cases h
    | ok b' =>
      cases h
      exact hk b

theorem act_unplaced (d : Draft) (s : Statement) :
    d.act s.unplaced = (d.act s).mapError fun (cause, token) => (cause, token.unplaced) := by
  cases s with
  | graphAttributes attributes place =>
    simp only [Statement.unplaced, Draft.act]
    split <;> rfl
  | nodeDefaults | edgeDefaults | chain | node => rfl

theorem actFrom_unplaced (d : Draft) (statements : List Statement) :
    (actFrom finish' d (statements.map .unplaced)).mapError Fault.unplaced =
      (actFrom finish d statements).mapError Fault.unplaced := by
  induction statements generalizing d with
  | nil => rfl
  | cons s statements ih =>
    rw [List.map_cons, actFrom_cons, actFrom_cons, act_unplaced]
    cases d.act s with
    | ok d' => exact ih d'
    | error e => rfl

theorem faultAt_unplaced (cause : Cause) (token : Option Token) :
    (faultAt cause finish' (token.map .unplaced)).unplaced =
      (faultAt cause finish token).unplaced := by
  cases token <;> rfl

/-- **A token list is read alike wherever its tokens stand**, but for the place of a fault. -/
theorem ofTokens_unplaced (tokens : List Token) (finish finish' : Position) :
    (ofTokens ⟨tokens.map .unplaced, finish'⟩).mapError Fault.unplaced =
      (ofTokens ⟨tokens, finish⟩).mapError Fault.unplaced := by
  have hact : (actAll finish' (readGraph tokens).unplaced.statements).mapError Fault.unplaced =
      (actAll finish (readGraph tokens).statements).mapError Fault.unplaced :=
    actFrom_unplaced {} _
  unfold ofTokens
  rw [readGraph_unplaced]
  refine mapError_bind_congr hact fun d => ?_
  cases hr : (readGraph tokens).refusal with
  | none =>
    have hr' : (readGraph tokens).unplaced.refusal = none := by
      rw [Script.unplaced, hr]
      rfl
    rw [hr']
    rfl
  | some e =>
    have hr' : (readGraph tokens).unplaced.refusal = some e.unplaced := by
      rw [Script.unplaced, hr]
      rfl
    rw [hr']
    exact congrArg Except.error (faultAt_unplaced e.cause e.token)

end Faults

end Scrawl.Description
