import Scrawl.Description.Lexer
/-!
# Scrawl.Description.Statement — reading tokens as statements

The grammar, with `ID` a name, number or quoted string:

    graph := [strict] digraph [ID] `{` [stmt (`;` stmt)* [`;`]] `}`
    stmt  := ID `=` ID | ID (`->` ID)+ [attrs] | ID [attrs] | (graph | node | edge) attrs
    attrs := `[` [ID `=` ID (sep ID `=` ID)* [sep]] `]`        sep := `,` | `;`

A reader takes its part off the front of the tokens or refuses the first token that cannot stand
there.  `readGraph` keeps the statements that were complete before a refusal, because a fault in
what a statement says comes before a refusal further on.
-/

namespace Scrawl.Description

/-- A refusal of a token, or of the end of the text. -/
structure Refusal where
  cause : Cause
  token : Option Token
  deriving DecidableEq

/-- Names and values of an attribute list, as written. -/
abbrev Attributes := List (String × String)

/-- A statement; `at` is the token that a fault in its meaning is reported at. -/
inductive Statement
  /-- A graph attribute, reported at its value, or a list of them, reported at the keyword. -/
  | graphAttributes (attributes : Attributes) (place : Token)
  | nodeDefaults (attributes : Attributes)
  | edgeDefaults (attributes : Attributes)
  /-- A chain of edges through the ids. -/
  | chain (first : String) (rest : List String)
  | node (id : String) (attributes : Attributes)
  deriving DecidableEq

/-- Refuses the first of the tokens. -/
def refuse {β : Type} (cause : Cause) (tokens : List Token) : Except Refusal β :=
  .error ⟨cause, tokens.head?⟩

/-- Takes an id, or refuses for the cause. -/
def readId (cause : Cause) : List Token → Except Refusal (String × List Token)
  | [] => refuse cause []
  | t :: rest =>
    match t.id? with
    | some id => .ok (id, rest)
    | none => refuse cause (t :: rest)

/-- Takes a mark. -/
def readMark (m : Mark) : List Token → Except Refusal (Unit × List Token)
  | [] => refuse (.expectedMark m) []
  | t :: rest => if t.isMark m then .ok ((), rest) else refuse (.expectedMark m) (t :: rest)

/-- Takes `ID = ID`. -/
def readAttribute (tokens : List Token) : Except Refusal ((String × String) × List Token) := do
  let (key, rest) ← readId .expectedName tokens
  let (_, rest) ← readMark .equals rest
  let (value, rest) ← readId (.expectedValueOf key) rest
  return ((key, value), rest)

/-- Whether the tokens begin with the mark. -/
def startsWith (m : Mark) : List Token → Bool
  | [] => false
  | t :: _ => t.isMark m

/-! ### Readers shorten the tokens -/

theorem readId_length {cause : Cause} {tokens rest : List Token} {id : String}
    (h : readId cause tokens = .ok (id, rest)) : rest.length < tokens.length := by
  unfold readId at h
  split at h
  · cases h
  · split at h
    · cases h; simp
    · cases h

theorem readMark_length {m : Mark} {tokens rest : List Token} {u : Unit}
    (h : readMark m tokens = .ok (u, rest)) : rest.length < tokens.length := by
  unfold readMark at h
  split at h
  · cases h
  · split at h
    · cases h; simp
    · cases h

/-- A computation that succeeds as a whole succeeds in its first step. -/
theorem ok_of_bind_ok {ε β γ : Type} {x : Except ε β} {f : β → Except ε γ} {c : γ}
    (h : (x >>= f) = .ok c) : ∃ b, x = .ok b ∧ f b = .ok c := by
  cases x with
  | error e => cases h
  | ok b => exact ⟨b, rfl, h⟩

theorem readAttribute_length {tokens rest : List Token} {a : String × String}
    (h : readAttribute tokens = .ok (a, rest)) : rest.length < tokens.length := by
  obtain ⟨⟨key, r1⟩, h1, h⟩ := ok_of_bind_ok h
  obtain ⟨⟨_, r2⟩, h2, h⟩ := ok_of_bind_ok h
  obtain ⟨⟨value, r3⟩, h3, h⟩ := ok_of_bind_ok h
  cases h
  have := readId_length h1
  have := readMark_length h2
  have := readId_length h3
  omega

/-- Takes an attribute list from behind its `[`; `done` holds the attributes before, last first. -/
def readAttributesFrom (done : Attributes) (tokens : List Token) :
    Except Refusal (Attributes × List Token) :=
  if startsWith .closeBracket tokens then .ok (done.reverse, tokens.drop 1)
  else
    match _h : readAttribute tokens with
    | .error e => .error e
    | .ok (a, rest) =>
      if startsWith .comma rest || startsWith .semicolon rest then
        readAttributesFrom (a :: done) (rest.drop 1)
      else if startsWith .closeBracket rest then .ok ((a :: done).reverse, rest.drop 1)
      else refuse .expectedSeparator rest
termination_by tokens.length
decreasing_by
  have := readAttribute_length _h
  simp only [List.length_drop]
  omega

/-- Takes an attribute list. -/
def readAttributes (tokens : List Token) : Except Refusal (Attributes × List Token) := do
  let (_, rest) ← readMark .openBracket tokens
  readAttributesFrom [] rest

/-- Takes an attribute list where there is one. -/
def readOptionalAttributes (tokens : List Token) : Except Refusal (Attributes × List Token) :=
  if startsWith .openBracket tokens then readAttributes tokens else .ok ([], tokens)

/-- Takes arrows and the ids behind them; `done` holds the ids before, last first. -/
def readTargets (done : List String) : List Token → Except Refusal (List String × List Token)
  | [] => .ok (done.reverse, [])
  | t :: rest =>
    if t.lexeme == .arrow then
      match rest with
      | [] => refuse .expectedTarget []
      | u :: more =>
        match u.id? with
        | some id => readTargets (id :: done) more
        | none => refuse .expectedTarget (u :: more)
    else .ok (done.reverse, t :: rest)

/-- Takes the part of a statement behind its first id. -/
def readAfterId (first : String) (tokens : List Token) : Except Refusal (Statement × List Token) :=
  match tokens with
  | [] => .ok (.node first [], [])
  | t :: rest =>
    if t.isMark .equals then do
      let (value, more) ← readId .expectedValue rest
      return (.graphAttributes [(first, value)] (rest.headD t), more)
    else if t.lexeme == .dashes then refuse .undirectedEdge tokens
    else if t.lexeme == .arrow then do
      let (targets, rest) ← readTargets [] tokens
      let (_, rest) ← readOptionalAttributes rest
      return (.chain first targets, rest)
    else do
      let (attributes, rest) ← readOptionalAttributes tokens
      return (.node first attributes, rest)

/-- Takes a statement. -/
def readStatement (tokens : List Token) : Except Refusal (Statement × List Token) :=
  match tokens with
  | [] => refuse .expectedStatement []
  | t :: rest =>
    match t.lexeme with
    | .keyword .graph => do
      let (attributes, rest) ← readAttributes rest
      return (.graphAttributes attributes t, rest)
    | .keyword .node => do
      let (attributes, rest) ← readAttributes rest
      return (.nodeDefaults attributes, rest)
    | .keyword .edge => do
      let (attributes, rest) ← readAttributes rest
      return (.edgeDefaults attributes, rest)
    | .keyword _ => refuse (.unsupportedStatement (String.ofList t.raw)) tokens
    | _ =>
      match t.id? with
      | some id => readAfterId id rest
      | none => refuse .expectedStatement tokens

/-- A description as far as it was read: its statements, and a refusal or its name. -/
structure Script where
  name : Option String
  statements : List Statement
  refusal : Option Refusal

theorem readAttributesFrom_length {done as : Attributes} {tokens rest : List Token}
    (h : readAttributesFrom done tokens = .ok (as, rest)) : rest.length ≤ tokens.length := by
  fun_induction readAttributesFrom done tokens with
  | case1 => cases h; simp
  | case2 => cases h
  | case3 done tokens _ a more hr _ ih =>
    have := readAttribute_length hr
    have := ih h
    simp only [List.length_drop] at this
    omega
  | case4 done tokens _ a more hr _ _ =>
    have := readAttribute_length hr
    cases h
    simp only [List.length_drop]
    omega
  | case5 => cases h

theorem readAttributes_length {as : Attributes} {tokens rest : List Token}
    (h : readAttributes tokens = .ok (as, rest)) : rest.length ≤ tokens.length := by
  obtain ⟨⟨_, r1⟩, h1, h⟩ := ok_of_bind_ok h
  have := readMark_length h1
  have := readAttributesFrom_length h
  omega

theorem readOptionalAttributes_length {as : Attributes} {tokens rest : List Token}
    (h : readOptionalAttributes tokens = .ok (as, rest)) : rest.length ≤ tokens.length := by
  unfold readOptionalAttributes at h
  split at h
  · exact readAttributes_length h
  · cases h; exact Nat.le_refl _

theorem readTargets_length {done ids : List String} {tokens rest : List Token}
    (h : readTargets done tokens = .ok (ids, rest)) : rest.length ≤ tokens.length := by
  fun_induction readTargets done tokens with
  | case1 => cases h; simp
  | case2 => cases h
  | case3 done t _ u more id _ ih =>
    have := ih h
    simp only [List.length_cons]
    omega
  | case4 => cases h
  | case5 => cases h; simp

theorem readAfterId_length {first : String} {s : Statement} {tokens rest : List Token}
    (h : readAfterId first tokens = .ok (s, rest)) : rest.length ≤ tokens.length := by
  unfold readAfterId at h
  split at h
  · cases h; simp
  · split at h
    · obtain ⟨⟨value, r1⟩, h1, h⟩ := ok_of_bind_ok h
      have := readId_length h1
      cases h
      simp only [List.length_cons]
      omega
    · split at h
      · cases h
      · split at h
        · obtain ⟨⟨ids, r1⟩, h1, h⟩ := ok_of_bind_ok h
          obtain ⟨⟨as, r2⟩, h2, h⟩ := ok_of_bind_ok h
          have := readTargets_length h1
          have := readOptionalAttributes_length h2
          cases h
          omega
        · obtain ⟨⟨as, r1⟩, h1, h⟩ := ok_of_bind_ok h
          have := readOptionalAttributes_length h1
          cases h
          omega

theorem readStatement_length {s : Statement} {tokens rest : List Token}
    (h : readStatement tokens = .ok (s, rest)) : rest.length < tokens.length := by
  unfold readStatement at h
  split at h
  · cases h
  · rw [List.length_cons, Nat.lt_succ_iff]
    split at h
    · obtain ⟨⟨as, r1⟩, h1, h⟩ := ok_of_bind_ok h
      cases h
      exact readAttributes_length h1
    · obtain ⟨⟨as, r1⟩, h1, h⟩ := ok_of_bind_ok h
      cases h
      exact readAttributes_length h1
    · obtain ⟨⟨as, r1⟩, h1, h⟩ := ok_of_bind_ok h
      cases h
      exact readAttributes_length h1
    · cases h
    · split at h
      · exact readAfterId_length h
      · cases h

/-- Takes statements up to the closing brace; gives the statements that were complete, `done` (last
first) in front, and the tokens behind the brace. -/
def readStatements (done : List Statement) (tokens : List Token) :
    List Statement × Except Refusal (List Token) :=
  match tokens with
  | [] => (done.reverse, refuse .unterminatedBlock [])
  | t :: rest =>
    if t.isMark .closeBrace then (done.reverse, .ok rest)
    else
      match _h : readStatement (t :: rest) with
      | .error e => (done.reverse, .error e)
      | .ok (s, more) =>
        if startsWith .semicolon more then readStatements (s :: done) (more.drop 1)
        else if startsWith .closeBrace more then ((s :: done).reverse, .ok (more.drop 1))
        else ((s :: done).reverse, refuse .expectedSemicolon more)
termination_by tokens.length
decreasing_by
  have := readStatement_length _h
  simp only [List.length_drop]
  omega

/-- Takes the keyword `strict` off, if it is there. -/
def dropStrict : List Token → List Token
  | [] => []
  | t :: rest => if t.lexeme == .keyword .strict then rest else t :: rest

/-- Takes the head of a description up to its opening brace and gives its name. -/
def readHead (tokens : List Token) : Except Refusal (Option String × List Token) := do
  match dropStrict tokens with
  | [] => refuse .noDigraph []
  | t :: rest =>
    if t.lexeme == .keyword .graph then refuse .undirectedGraph (t :: rest)
    else if t.lexeme != .keyword .digraph then refuse .noDigraph (t :: rest)
    else
      let name := rest.head?.bind (·.id?)
      let (_, rest) ← readMark .openBrace (if name.isSome then rest.drop 1 else rest)
      return (name, rest)

/-- Reads a whole token list. -/
def readGraph (tokens : List Token) : Script :=
  match readHead tokens with
  | .error e => ⟨none, [], some e⟩
  | .ok (name, rest) =>
    let (statements, tail) := readStatements [] rest
    let refusal :=
      match tail with
      | .error e => some e
      | .ok [] => none
      | .ok (t :: _) => some ⟨.trailingContent, some t⟩
    ⟨name, statements, refusal⟩

end Scrawl.Description
