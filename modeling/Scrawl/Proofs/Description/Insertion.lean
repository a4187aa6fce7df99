import Scrawl.Proofs.Description.Lookahead
import Scrawl.Proofs.Description.Unplaced

/-!
# Scrawl.Proofs.Description.Insertion — white space and comments in front of a token

White space or a block comment in front of a token is a piece of its own, and leaves the pieces
around it as they are.  White space behind white space makes one piece with it.  A name goes on with
every character outside ASCII, white space too: such a character behind a name or a keyword becomes a
part of it.

* `IsFiller`: white space, or a whole block comment.
* `exists_pieces_filled`: the pieces with a filler among them.
* `exists_pieces_joined`: the pieces with a filler that a name goes on with.
* `scan_insert`: the tokens, and the graph or the fault, of a text with a filler.
-/

namespace Scrawl.Description

open Text (Ends isBlank isDigit)

/-! ### Fillers -/

/-- White space, some of it, or a whole block comment. -/
def IsFiller (w : List Char) : Prop :=
  (w ≠ [] ∧ ∀ c ∈ w, isBlank c) ∨
    ∃ body, w = '/' :: '*' :: (body ++ ['*', '/']) ∧ ¬ ['*', '/'] <:+: body

section Fillers

variable {w after : List Char} {c : Char}

/-- A block ends at the first `*/`. -/
theorem cutBlock_of_body {body : List Char} (h : ¬ ['*', '/'] <:+: body) (taken rest : List Char) :
    cutBlock taken (body ++ '*' :: '/' :: rest) =
      some (taken.reverse ++ (body ++ ['*', '/']), rest) := by
  induction body generalizing taken with
  | nil => rfl
  | cons c body ih =>
    have hbody : ¬ ['*', '/'] <:+: body := fun hin => h (hin.trans (List.suffix_cons c body).isInfix)
    rw [List.cons_append, cutBlock]
    · rw [ih hbody]
      simp
    · rintro ds rfl hds
      cases body with
      | nil => cases hds
      | cons d body =>
        obtain ⟨rfl, -⟩ := List.cons_eq_cons.mp hds
        exact h ⟨[], body, rfl⟩

/-- A filler in front of what is no white space is a piece without a lexeme. -/
theorem IsFiller.piece (h : IsFiller w) (hafter : Ends isBlank after) :
    piece? (w ++ after) = some ⟨none, w, after⟩ := by
  rw [← kindOf_iff]
  rcases h with ⟨hne, hall⟩ | ⟨body, rfl, hbody⟩
  · obtain ⟨c, w, rfl⟩ := List.exists_cons_of_ne_nil hne
    obtain ⟨hc, hw⟩ := List.forall_mem_cons.mp hall
    obtain ⟨htake, hdrop⟩ := Text.span_append hw hafter
    have hrun : cutRun isBlank (c :: (w ++ after)) =
        some (c :: (w ++ after).takeWhile isBlank, (w ++ after).dropWhile isBlank) := if_pos hc
    rw [htake, hdrop] at hrun
    exact .blanks hrun
  · refine .comment ?_
    have hblock := cutBlock_of_body hbody ['*', '/'] after
    rw [List.cons_append, List.cons_append, List.append_assoc]
    exact hblock

/-- White space is a part of names where it is outside ASCII. -/
theorem isNamePart_of_isBlank (h : isBlank c) : isNamePart c = decide (0x80 ≤ c.toNat) := by
  by_cases hfar : 0x80 ≤ c.toNat
  · simp [isNamePart, isNameStart, hfar]
  · have halpha : c.isAlpha = false := by
      by_contra hletter
      have := isBlank_of_letter (by simpa using hletter)
      rw [h] at this
      cases this
    have hdigit : c.isDigit = false := by
      by_contra hdigit
      have hrange : 48 ≤ c.toNat ∧ c.toNat ≤ 57 := by
        simpa [Char.isDigit, UInt32.le_iff_toNat_le] using hdigit
      simp only [isBlank, Bool.or_eq_true, Bool.and_eq_true, decide_eq_true_eq, beq_iff_eq] at h
      omega
    have hline : c ≠ '_' := ne_of_class h (by decide)
    have hpoint : c ≠ '.' := ne_of_class h (by decide)
    simp [isNamePart, isNameStart, halpha, hdigit, hline, hpoint, hfar]

end Fillers

/-! ### Pieces with a filler among them -/

section Filled

variable {cs mid w after : List Char} {p q : Piece} {ps : List Piece} {lexeme : Lexeme}

/-- A filler begins with white space, or with the slash of a comment. -/
theorem IsFiller.head (h : IsFiller w) : ∃ c ds, w = c :: ds ∧ (isBlank c ∨ c = '/') := by
  rcases h with ⟨hne, hall⟩ | ⟨body, rfl, -⟩
  · obtain ⟨c, ds, rfl⟩ := List.exists_cons_of_ne_nil hne
    exact ⟨c, ds, rfl, Or.inl (hall c List.mem_cons_self)⟩
  · exact ⟨_, _, rfl, Or.inr rfl⟩

/-- A piece does not go on with a filler in front of a token, unless both are white space, or the
piece is a word and the filler begins outside ASCII. -/
theorem ends_filler (hp : piece? after = some p) (hl : p.lexeme = some lexeme)
    (hq : Ends q.goesOn after) (hw : IsFiller w)
    (hword : ∀ l, q.lexeme = some l → l.isWord → ∀ c ∈ w.head?, c.toNat < 0x80) :
    Ends q.goesOn (w ++ after) ∨
      q.lexeme = none ∧ (∀ c ∈ q.raw, isBlank c) ∧ ∀ c ∈ w, isBlank c := by
  obtain ⟨c, ds, rfl, hc⟩ := hw.head
  have hends (hgoes : q.goesOn c = false) : Ends q.goesOn (c :: ds ++ after) := by
    rintro d ⟨⟩
    exact hgoes
  have hplain : isDigit c = false ∧ c ≠ '.' := by
    rcases hc with hc | rfl
    · exact ⟨isDigit_of_isBlank hc, ne_of_class hc (by decide)⟩
    · decide
  cases hlex : q.lexeme with
  | none =>
    by_cases hall : q.raw.all isBlank
    · have hgoes : q.goesOn = isBlank := by simp only [Piece.goesOn, hlex, hall, if_true]
      rcases hw with ⟨-, hblank⟩ | ⟨body, hbody, -⟩
      · exact Or.inr ⟨rfl, List.all_eq_true.mp hall, hblank⟩
      · refine Or.inl (hends ?_)
        obtain ⟨rfl, -⟩ := List.cons_eq_cons.mp hbody
        rw [hgoes]
        decide
    · have hgoes : q.goesOn = commentGoesOn q.raw := by simp [Piece.goesOn, hlex, hall]
      rcases commentGoesOn_cases q.raw with hcomment | hcomment <;> rw [hcomment] at hgoes
      · exact Or.inl (hends (congrFun hgoes c))
      · -- behind the line of a comment there is a line feed, which begins no token
        have hne : after ≠ [] := by
          rintro rfl
          cases hp
        obtain ⟨d, after, rfl⟩ := List.exists_cons_of_ne_nil hne
        rw [hgoes] at hq
        have hfeed : d = '\n' := by simpa using hq d rfl
        have hblank := ends_isBlank_of_token hp hl d rfl
        rw [hfeed] at hblank
        exact absurd hblank (by decide)
  | some l =>
    refine Or.inl (hends ?_)
    unfold Piece.goesOn
    rw [hlex]
    cases l with
    | name | keyword =>
      have hnear : c.toNat < 0x80 := hword _ hlex rfl c rfl
      show isNamePart c = false
      rcases hc with hc | rfl
      · rw [isNamePart_of_isBlank hc, decide_eq_false_iff_not]
        omega
      · decide
    | number =>
      show numberGoesOn q.raw c = false
      simp [numberGoesOn, hplain]
    | quoted | arrow | dashes | mark => rfl

/-- **A filler in front of a token leaves the pieces before it as they are**, unless the last of them
is a word and the filler begins outside ASCII. -/
theorem exists_pieces_filled (hps : Pieces cs ps after) (hp : piece? after = some p)
    (hl : p.lexeme = some lexeme) (hw : IsFiller w)
    (hword : ∀ q ∈ ps.getLast?, ∀ l, q.lexeme = some l → l.isWord → ∀ c ∈ w.head?, c.toNat < 0x80) :
    ∃ qs, Pieces (rawOf ps ++ (w ++ after)) qs after ∧ lexed qs = lexed ps := by
  have hafter : Ends isBlank after := ends_isBlank_of_token hp hl
  have happend {qs : List Piece} {cs' : List Char} (h : Pieces cs' qs (w ++ after)) :
      Pieces cs' (qs ++ [⟨none, w, after⟩]) after ∧
        lexed (qs ++ [⟨none, w, after⟩]) = lexed qs := by
    refine ⟨h.append (.one (hw.piece hafter)), ?_⟩
    rw [lexed_append]
    exact List.append_nil _
  rcases List.eq_nil_or_concat ps with rfl | ⟨ps, q, rfl⟩
  · exact ⟨[⟨none, w, after⟩], .one (hw.piece hafter), rfl⟩
  · rw [List.concat_eq_append] at *
    have hend := hps.ends q (by simp)
    rcases ends_filler hp hl hend hw (hword q (by simp)) with hstop | ⟨hlex, hraw, hblank⟩
    · have hlast : ∀ u ∈ (ps ++ [q]).getLast?, Ends u.goesOn (w ++ after) := by simpa using hstop
      obtain ⟨qs, hqs, hlexed⟩ := hps.swap hlast
      obtain ⟨hall, hsame⟩ := happend hqs
      exact ⟨_, hall, hsame.trans hlexed⟩
    · -- white space behind white space: one piece of both
      obtain ⟨mid, hmid, hq⟩ := hps.split
      have hne : q.raw ≠ [] := (hps.skipped q (by simp)).1
      have hmore : q.raw ++ after = mid := by
        rw [← hq.rawOf_append, rawOf, List.flatMap_singleton]
      have hlast : ∀ u ∈ ps.getLast?, Ends u.goesOn (q.raw ++ (w ++ after)) :=
        fun u hu => ends_append_of_ne_nil (hmore ▸ hmid.ends u hu) hne
      obtain ⟨qs, hqs, hlexed⟩ := hmid.swap hlast
      have hboth : IsFiller (q.raw ++ w) :=
        Or.inl ⟨List.append_ne_nil_of_left_ne_nil hne w, fun c hc =>
          (List.mem_append.mp hc).elim (hraw c) (hblank c)⟩
      have hpiece := hboth.piece hafter
      rw [List.append_assoc] at hpiece
      refine ⟨qs ++ [⟨none, q.raw ++ w, after⟩], ?_, ?_⟩
      · rw [rawOf_append_pieces, List.append_assoc, rawOf, rawOf, List.flatMap_singleton]
        exact hqs.append (.one hpiece)
      · rw [lexed_append, lexed_append, hlexed, lexed_cons q, hlex]
        rfl

/-- A name that is read alike is as long. -/
theorem length_of_nameLexeme {raw raw' : List Char} (h : nameLexeme raw = nameLexeme raw') :
    raw.length = raw'.length := by
  cases hlex : nameLexeme raw' with
  | keyword k =>
    rw [hlex] at h
    have hraw := congrArg List.length (nameLexeme_eq_keyword.mp h)
    have hraw' := congrArg List.length (nameLexeme_eq_keyword.mp hlex)
    rw [List.length_map] at hraw hraw'
    exact hraw.trans hraw'.symm
  | name n =>
    rw [hlex] at h
    have hraw := id?_nameLexeme (congrArg Lexeme.id? h)
    have hraw' := id?_nameLexeme (congrArg Lexeme.id? hlex)
    rw [String.ofList_inj.mp (hraw.symm.trans hraw')]
  | number | quoted | arrow | dashes | mark =>
    have hname := isWord_nameLexeme raw'
    rw [hlex] at hname
    cases hname

/-- White space in front of what is none is one piece, or nothing. -/
theorem exists_pieces_blank (hw : ∀ c ∈ w, isBlank c) (hafter : Ends isBlank after) :
    ∃ qs, Pieces (w ++ after) qs after ∧ lexed qs = [] := by
  by_cases hne : w = []
  · subst hne
    exact ⟨[], .nil, rfl⟩
  · exact ⟨[⟨none, w, after⟩], .one (IsFiller.piece (Or.inl ⟨hne, hw⟩) hafter), rfl⟩

/-- A word goes on with white space outside ASCII, and is another one then; some of the white space
may be left. -/
theorem piece?_joined (h : piece? cs = some q) {word : Lexeme} (hlex : q.lexeme = some word)
    (hword : word.isWord) (hw : ∀ e ∈ w, isBlank e) {c : Char} (hc : c ∈ w.head?)
    (hfar : 0x80 ≤ c.toNat) :
    ∃ word' raw left, piece? (q.raw ++ (w ++ q.rest)) = some ⟨some word', raw, left ++ q.rest⟩ ∧
      word' ≠ word ∧ ∀ e ∈ left, isBlank e := by
  obtain ⟨ws, rfl⟩ := List.head?_eq_some_iff.mp hc
  have hcpart : isNamePart c := by
    rw [isNamePart_of_isBlank (hw c List.mem_cons_self), decide_eq_true hfar]
  cases kindOf_iff.mpr h with
  | @name d ds hd hdblank hddigit =>
    cases hlex
    set part := ds.takeWhile isNamePart
    set more := ws.takeWhile isNamePart
    set left := ws.dropWhile isNamePart
    have hws : more ++ left = ws := List.takeWhile_append_dropWhile
    have hends : Ends isNamePart (left ++ ds.dropWhile isNamePart) := by
      by_cases hnil : left = []
      · rw [hnil]
        exact ends_dropWhile _ ds
      · have hend : Ends isNamePart (left ++ []) := by
          rw [List.append_nil]
          exact ends_dropWhile _ ws
        exact ends_append_of_ne_nil hend hnil
    have hparts : ∀ e ∈ part ++ c :: more, isNamePart e := by
      intro e he
      rcases List.mem_append.mp he with he | he
      · exact List.mem_takeWhile_imp he
      · rcases List.mem_cons.mp he with rfl | he
        · exact hcpart
        · exact List.mem_takeWhile_imp he
    obtain ⟨htake, hdrop⟩ := Text.span_append hparts hends
    have hname := @KindOf.name d (part ++ c :: more ++ (left ++ ds.dropWhile isNamePart))
      hd hdblank hddigit
    rw [htake, hdrop, kindOf_iff] at hname
    refine ⟨nameLexeme (d :: (part ++ c :: more)), d :: (part ++ c :: more), left, ?_,
      fun heq => ?_, fun e he =>
        hw e (List.mem_cons_of_mem _ ((List.dropWhile_sublist _).mem he))⟩
    · rw [← hname, ← hws]
      simp
    · have hlength := length_of_nameLexeme heq
      simp at hlength
  | blanks | comment => cases hlex
  | string | number | arrow | dashes | mark =>
    cases hlex
    cases hword

/-- **A word makes another one with a filler that begins outside ASCII.** -/
theorem exists_pieces_joined (hps : Pieces cs (ps ++ [q]) after) (hp : piece? after = some p)
    (hl : p.lexeme = some lexeme) (hw : IsFiller w) {word : Lexeme} (hlex : q.lexeme = some word)
    (hword : word.isWord) {c : Char} (hc : c ∈ w.head?) (hfar : 0x80 ≤ c.toNat) :
    ∃ qs word' raw, Pieces (rawOf (ps ++ [q]) ++ (w ++ after)) qs after ∧
      lexed qs = lexed ps ++ [(word', raw)] ∧ word' ≠ word := by
  have hblank : ∀ d ∈ w, isBlank d := by
    rcases hw with ⟨-, hall⟩ | ⟨body, rfl, -⟩
    · exact hall
    · cases hc
      exact absurd hfar (by decide)
  obtain ⟨mid, hmid, hq⟩ := hps.split
  have hlast : ∀ u ∈ ps.getLast?, Ends u.goesOn (q.raw ++ (w ++ after)) := by
    intro u hu
    have hend := hmid.ends u hu
    rw [← hq.rawOf_append, rawOf, List.flatMap_singleton] at hend
    exact ends_append_of_ne_nil hend (hps.skipped q (by simp)).1
  obtain ⟨qs, hqs, hlexed⟩ := hmid.swap hlast
  have hpiece : piece? mid = some q ∧ q.rest = after := by
    cases hq with
    | cons hq hnil =>
      cases hnil
      exact ⟨hq, rfl⟩
  obtain ⟨hpiece, rfl⟩ := hpiece
  obtain ⟨word', raw, left, hjoined, hne, hleft⟩ := piece?_joined hpiece hlex hword hblank hc hfar
  obtain ⟨vs, hvs, hnone⟩ := exists_pieces_blank hleft (ends_isBlank_of_token hp hl)
  refine ⟨qs ++ ⟨some word', raw, left ++ q.rest⟩ :: vs, word', raw, ?_, ?_, hne⟩
  · rw [rawOf_append_pieces, List.append_assoc, rawOf, rawOf, List.flatMap_singleton]
    exact hqs.append (.cons hjoined hvs)
  · rw [lexed_append, lexed_cons, hlexed, hnone]
    rfl

end Filled

/-! ### Texts with a filler -/

section Texts

variable {text : String} {s : Scan} {t : Token} {before after w : List Char}

/-- Whether the text `before` ends with a token that is a word, and the filler begins with white
space that the word goes on with. -/
def Joins (tokens : List Token) (before w : List Char) : Prop :=
  (∃ u ∈ tokens, u.lexeme.isWord ∧ ∃ b, b ++ u.raw = before ∧ Position.behind b = u.position) ∧
    ∃ c ∈ w.head?, 0x80 ≤ c.toNat

/-- Tokens of the same lexemes and texts differ in their places only. -/
theorem map_unplaced_of_lexed {before before' : List Char} {ps qs : List Piece}
    (h : lexed ps = lexed qs) :
    (tokensBehind before ps).map .unplaced = (tokensBehind before' qs).map Token.unplaced := by
  have hmap (tokens : List Token) : tokens.map Token.unplaced =
      (tokens.map fun t => (t.lexeme, t.raw)).map fun p => ⟨p.1, p.2, {}⟩ := by
    rw [List.map_map]
    rfl
  rw [hmap, hmap, lexed_tokensBehind, lexed_tokensBehind, h]

theorem tokensBehind_append (before : List Char) (ps qs : List Piece) :
    tokensBehind before (ps ++ qs) =
      tokensBehind before ps ++ tokensBehind (before ++ rawOf ps) qs := by
  induction ps generalizing before with
  | nil => rw [List.nil_append, rawOf, List.flatMap_nil, List.append_nil]; rfl
  | cons p ps ih =>
    rw [List.cons_append, tokensBehind, tokensBehind, ih, List.append_assoc, List.append_assoc]
    rfl

/-- A token stands where its piece does, and nowhere else. -/
theorem exists_piece_at (hs : scan text = .ok s) (ht : t ∈ s.tokens)
    (hsplit : before ++ after = text.toList) (hplace : Position.behind before = t.position) :
    ∃ ps p qs, s.tokens = tokensBehind [] (ps ++ p :: qs) ∧ p.lexeme = some t.lexeme ∧
      p.raw = t.raw ∧ rawOf ps = before ∧ Pieces text.toList ps after ∧
      Pieces after (p :: qs) [] := by
  obtain ⟨ps, rest, hps, ⟨rfl, hscan⟩ | ⟨-, -, hscan⟩⟩ := scan_cases text
  · cases hscan.symm.trans hs
    obtain ⟨ps₁, p, ps₂, rfl, hl, hraw, hposition⟩ := mem_tokensBehind ht
    obtain ⟨mid, hps₁, hps₂⟩ := hps.split
    obtain rfl : mid = after := StandsAt.unique ⟨before, hsplit, hplace⟩
      ⟨rawOf ps₁, hps₁.rawOf_append, hposition.symm⟩
    have hbefore : rawOf ps₁ = before :=
      List.append_cancel_right (hps₁.rawOf_append.trans hsplit.symm)
    exact ⟨ps₁, p, ps₂, rfl, hl, hraw.symm, hbefore, hps₁, hps₂⟩
  · cases hscan.symm.trans hs

/-- The text with a filler, where no word goes on with it. -/
theorem exists_scan_filled (hs : scan text = .ok s) (ht : t ∈ s.tokens)
    (hsplit : before ++ after = text.toList) (hplace : Position.behind before = t.position)
    (hw : IsFiller w) (hjoins : ¬ Joins s.tokens before w) :
    ∃ s', scan (String.ofList (before ++ (w ++ after))) = .ok s' ∧
      s'.tokens.map Token.unplaced = s.tokens.map Token.unplaced := by
  obtain ⟨ps, p, qs, htokens, hl, -, rfl, hps, hqs⟩ := exists_piece_at hs ht hsplit hplace
  have hp : piece? after = some p := by
    cases hqs with
    | cons hp _ => exact hp
  have hword : ∀ q ∈ ps.getLast?, ∀ l, q.lexeme = some l → l.isWord →
      ∀ c ∈ w.head?, c.toNat < 0x80 := by
    intro q hq l hlex hword c hc
    by_contra hfar
    obtain ⟨ps, rfl⟩ := List.getLast?_eq_some_iff.mp hq
    refine hjoins ⟨⟨⟨l, q.raw, .behind (rawOf ps)⟩, ?_, hword, rawOf ps, ?_, rfl⟩, c, hc, by omega⟩
    · rw [htokens, List.append_assoc, tokensBehind_append]
      refine List.mem_append_right _ (List.mem_append_left _ ?_)
      simp [Piece.tokens, hlex]
    · rw [rawOf_append_pieces, rawOf, rawOf, List.flatMap_singleton]
  obtain ⟨us, hus, hlexed⟩ := exists_pieces_filled hps hp hl hw hword
  have hall : Pieces (String.ofList (rawOf ps ++ (w ++ after))).toList (us ++ p :: qs) [] := by
    rw [String.toList_ofList]
    exact hus.append hqs
  refine ⟨_, scan_of_pieces hall, ?_⟩
  rw [htokens]
  apply map_unplaced_of_lexed
  rw [lexed_append, lexed_append, hlexed]

/-- The text with a filler that a word goes on with. -/
theorem exists_scan_joined (hs : scan text = .ok s) (ht : t ∈ s.tokens)
    (hsplit : before ++ after = text.toList) (hplace : Position.behind before = t.position)
    (hw : IsFiller w) (hjoins : Joins s.tokens before w) :
    ∃ s', scan (String.ofList (before ++ (w ++ after))) = .ok s' ∧
      s'.tokens.map (·.lexeme) ≠ s.tokens.map (·.lexeme) := by
  obtain ⟨⟨u, hu, hword, b, rfl, hb⟩, c, hc, hfar⟩ := hjoins
  obtain ⟨_, p, _, -, hl, -, -, -, hp⟩ := exists_piece_at hs ht hsplit hplace
  rw [List.append_assoc] at hsplit
  obtain ⟨ps, q, qs, htokens, hlex, hraw, rfl, hps, hqs⟩ := exists_piece_at hs hu hsplit hb
  cases hp with
  | cons hp _ =>
  cases hqs with
  | cons hq hqs =>
  obtain rfl : q.rest = after := by
    have hsplit := (piece?_append hq).2
    rw [hraw] at hsplit
    exact List.append_cancel_left hsplit
  have hmore : Pieces text.toList (ps ++ [q]) q.rest := hps.append (.one hq)
  obtain ⟨us, word, raw, hus, hlexed, hne⟩ :=
    exists_pieces_joined hmore hp hl hw hlex hword hc hfar
  have hall : Pieces (String.ofList (rawOf ps ++ u.raw ++ (w ++ q.rest))).toList (us ++ qs) [] := by
    rw [rawOf_append_pieces, rawOf, rawOf, List.flatMap_singleton, hraw] at hus
    rw [String.toList_ofList]
    exact hus.append hqs
  refine ⟨_, scan_of_pieces hall, fun heq => hne ?_⟩
  have hfirst (before : List Char) (ps : List Piece) :
      (tokensBehind before ps).map (·.lexeme) = (lexed ps).map (·.1) := by
    rw [← lexed_tokensBehind before, List.map_map]
    rfl
  -- the tokens before the word are the same, so the word would be
  rw [htokens, hfirst, hfirst, lexed_append, hlexed, lexed_append, lexed_cons q, hlex,
    List.append_assoc] at heq
  simp only [List.map_append] at heq
  exact (List.cons_eq_cons.mp (List.append_cancel_left heq)).1

end Texts

/-- Texts whose tokens differ in their places only are read alike. -/
theorem read_unplaced {text text' : String} {s s' : Scan} (hs : scan text = .ok s)
    (hs' : scan text' = .ok s')
    (h : s'.tokens.map Token.unplaced = s.tokens.map Token.unplaced) :
    (read text').mapError Fault.unplaced = (read text).mapError Fault.unplaced := by
  have hread : read text = ofTokens s := by rw [read, hs, ok_bind]
  have hread' : read text' = ofTokens s' := by rw [read, hs', ok_bind]
  rw [hread, hread', ← ofTokens_unplaced s.tokens s.finish s.finish, ← h]
  exact (ofTokens_unplaced s'.tokens s'.finish s.finish).symm

/-- **A filler in front of a token** of a text that is cut into tokens leaves a text that is cut into
tokens.  Their lexemes are the same if and only if no name or keyword that ends there goes on with
the filler; and then the same graph is read, or there is the same fault, but for its place. -/
theorem scan_insert {text : String} {s : Scan} {t : Token} {before after w : List Char}
    (hs : scan text = .ok s) (ht : t ∈ s.tokens) (hsplit : before ++ after = text.toList)
    (hplace : Position.behind before = t.position) (hw : IsFiller w) :
    ∃ s', scan (String.ofList (before ++ (w ++ after))) = .ok s' ∧
      (s'.tokens.map (·.lexeme) = s.tokens.map (·.lexeme) ↔ ¬ Joins s.tokens before w) ∧
      (¬ Joins s.tokens before w →
        (read (String.ofList (before ++ (w ++ after)))).mapError Fault.unplaced =
          (read text).mapError Fault.unplaced) := by
  by_cases hjoins : Joins s.tokens before w
  · obtain ⟨s', hs', hne⟩ := exists_scan_joined hs ht hsplit hplace hw hjoins
    exact ⟨s', hs', ⟨fun heq => absurd heq hne, fun hnot => absurd hjoins hnot⟩,
      fun hnot => absurd hjoins hnot⟩
  · obtain ⟨s', hs', hsame⟩ := exists_scan_filled hs ht hsplit hplace hw hjoins
    have hlexemes : s'.tokens.map (·.lexeme) = s.tokens.map (·.lexeme) := by
      have hmap := congrArg (List.map (·.lexeme)) hsame
      rwa [List.map_map, List.map_map] at hmap
    exact ⟨s', hs', ⟨fun _ => hjoins, fun _ => hlexemes⟩, fun _ => read_unplaced hs hs' hsame⟩

/-- A description whose keyword is right in front of its brace. -/
def tightSample : String := "digraph\x7b a \x7d"

/-- The brace of the description. -/
def tightBrace : Token := ⟨.mark .openBrace, ['\x7b'], ⟨1, 8⟩⟩

theorem scan_tightSample : ∃ s, scan tightSample = .ok s ∧ tightBrace ∈ s.tokens := by
  have hbrace : (scan tightSample).toOption.any (·.tokens.contains tightBrace) := by decide +kernel
  cases hs : scan tightSample with
  | error fault =>
    rw [hs] at hbrace
    cases hbrace
  | ok s =>
    rw [hs] at hbrace
    exact ⟨s, rfl, List.elem_iff.mp hbrace⟩

/-- A comment in front of the brace. -/
theorem scan_insert_tight : ∃ s s', scan tightSample = .ok s ∧
    scan (String.ofList ("digraph".toList ++ ("/* \x7b */".toList ++ "\x7b a \x7d".toList))) =
      .ok s' ∧
    s'.tokens.map (·.lexeme) = s.tokens.map (·.lexeme) := by
  obtain ⟨s, hs, hbrace⟩ := scan_tightSample
  have hw : IsFiller "/* \x7b */".toList := Or.inr ⟨[' ', '\x7b', ' '], by decide, by decide⟩
  have hnot : ¬ Joins s.tokens "digraph".toList "/* \x7b */".toList := by
    rintro ⟨-, c, ⟨⟩, hfar⟩
    exact absurd hfar (by decide)
  obtain ⟨s', hs', hsame, -⟩ := scan_insert hs hbrace
    (show "digraph".toList ++ "\x7b a \x7d".toList = tightSample.toList by decide) (by decide) hw
  exact ⟨s, s', hs, hs', hsame.mpr hnot⟩

/-- The description with a no-break space in front of its brace. -/
def gluedSample : String :=
  String.ofList ("digraph".toList ++ (['\u00a0'] ++ "\x7b a \x7d".toList))

theorem scan_insert_glued : IsFiller ['\u00a0'] ∧ (∃ s s', scan tightSample = .ok s ∧
    tightBrace ∈ s.tokens ∧ Position.behind "digraph".toList = tightBrace.position ∧
    scan gluedSample = .ok s' ∧ s'.tokens.map (·.lexeme) ≠ s.tokens.map (·.lexeme)) ∧
    (read tightSample).isOk ∧ ¬ (read gluedSample).isOk := by
  refine ⟨Or.inl ⟨by decide, List.forall_mem_singleton.mpr (by decide)⟩, ?_,
    by decide +kernel, by decide +kernel⟩
  obtain ⟨s, hs, hbrace⟩ := scan_tightSample
  obtain ⟨s', hs'⟩ : ∃ s', scan gluedSample = .ok s' := exists_ok_of_isOk (by decide +kernel)
  have hfirst : (scan gluedSample).toOption.map (·.tokens.map (·.lexeme)) ≠
      (scan tightSample).toOption.map (·.tokens.map (·.lexeme)) := by decide +kernel
  rw [hs, hs'] at hfirst
  exact ⟨s, s', hs, hbrace, by decide, hs', fun heq => hfirst (congrArg some heq)⟩

end Scrawl.Description
