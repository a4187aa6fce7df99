import Scrawl.Proofs.Description.Acceptance
import Scrawl.Proofs.Description.Refusals

/-!
# Scrawl.Proofs.Description.Places — tokens and faults are where they say

A place counts the line feeds of the text before it, and the characters behind the last one.  The
lexer keeps the place of what it reads up to date by the pieces that it takes (`advance_behind`), so
every token has the place behind the pieces before it.

* `StandsAt.unique`: a place lies at one point of a text only.
* `scanFrom_cases`: a scan takes pieces as long as there is one.
* `scan_places`: the pieces make up the text; the places of the tokens, of the end and of a fault.
-/

namespace Scrawl.Description

/-! ### Places -/

namespace Position

/-- The place behind a text: a line more for each line feed in it, and a column more for each
character behind the last of them. -/
def behind (cs : List Char) : Position :=
  ⟨1 + cs.count '\n', 1 + (cs.reverse.takeWhile (· != '\n')).length⟩

theorem behind_concat (cs : List Char) (c : Char) : behind (cs ++ [c]) = (behind cs).next c := by
  by_cases hc : c = '\n'
  · subst hc
    simp [behind, next, Nat.add_assoc]
  · have hne : (c != '\n') = true := by simpa using hc
    simp only [behind, next, List.count_append, List.count_singleton, List.reverse_append,
      List.reverse_singleton, List.singleton_append, List.takeWhile_cons, hne, if_true,
      beq_iff_eq, hc, if_false, List.length_cons]
    rfl

/-- The place is kept up to date piece by piece. -/
theorem advance_behind (cs ds : List Char) : (behind cs).advance ds = behind (cs ++ ds) := by
  induction ds generalizing cs with
  | nil => rw [List.append_nil]; rfl
  | cons d ds ih =>
    show ((behind cs).next d).advance ds = behind (cs ++ d :: ds)
    rw [← behind_concat, ih, List.append_assoc]
    rfl

/-- More text lies at another place. -/
theorem eq_nil_of_behind_append {cs ds : List Char} (h : behind (cs ++ ds) = behind cs) :
    ds = [] := by
  have hline : 1 + (cs ++ ds).count '\n' = 1 + cs.count '\n' := congrArg line h
  have hcolumn : 1 + ((cs ++ ds).reverse.takeWhile (· != '\n')).length =
      1 + (cs.reverse.takeWhile (· != '\n')).length := congrArg column h
  have hflat : ∀ d ∈ ds.reverse, (d != '\n') = true := by
    intro d hd
    have hzero : ds.count '\n' = 0 := by
      rw [List.count_append] at hline
      omega
    have hmem := List.count_eq_zero.mp hzero
    simp only [bne_iff_ne, ne_eq]
    rintro rfl
    exact hmem (List.mem_reverse.mp hd)
  rw [List.reverse_append, List.takeWhile_append_of_pos hflat, List.length_append,
    List.length_reverse] at hcolumn
  exact List.length_eq_zero_iff.mp (by omega)

end Position

/-- The place lies in the text, and `rest` is what stands there. -/
def StandsAt (text : List Char) (p : Position) (rest : List Char) : Prop :=
  ∃ before, before ++ rest = text ∧ Position.behind before = p

theorem StandsAt.unique {text rest rest' : List Char} {p : Position} (h : StandsAt text p rest)
    (h' : StandsAt text p rest') : rest' = rest := by
  obtain ⟨before, rfl, rfl⟩ := h
  obtain ⟨before', heq, hp⟩ := h'
  rcases List.append_eq_append_iff.mp heq with ⟨ds, rfl, rfl⟩ | ⟨ds, rfl, rfl⟩
  · rw [Position.eq_nil_of_behind_append hp.symm, List.nil_append]
  · rw [Position.eq_nil_of_behind_append hp, List.nil_append]

/-! ### Pieces -/

/-- The text begins with the pieces, each taken at the start of what is left, and goes on with the
rest. -/
inductive Pieces : List Char → List Piece → List Char → Prop
  | nil {rest : List Char} : Pieces rest [] rest
  | cons {cs rest : List Char} {p : Piece} {ps : List Piece} (h : piece? cs = some p)
      (hr : Pieces p.rest ps rest) : Pieces cs (p :: ps) rest

/-- The text of pieces. -/
def rawOf (ps : List Piece) : List Char := ps.flatMap (·.raw)

/-- White space, or the beginning of a comment. -/
def IsSkipped (raw : List Char) : Prop :=
  (∀ c ∈ raw, Text.isBlank c) ∨ "//".toList <+: raw ∨ "#".toList <+: raw ∨ "/*".toList <+: raw

/-- The token of a piece, if it has a lexeme. -/
def Piece.tokens (p : Piece) (position : Position) : List Token :=
  (p.lexeme.map fun lexeme => ⟨lexeme, p.raw, position⟩).toList

/-- The tokens of pieces that stand behind a text, each at the place behind all that is before
it. -/
def tokensBehind (before : List Char) : List Piece → List Token
  | [] => []
  | p :: ps => p.tokens (.behind before) ++ tokensBehind (before ++ p.raw) ps

theorem cutBlock_extends {taken cs raw rest : List Char} (h : cutBlock taken cs = some (raw, rest)) :
    taken.reverse <+: raw := by
  fun_induction cutBlock taken cs with
  | case1 taken more =>
    cases h
    exact List.prefix_append _ _
  | case2 taken c more _ ih =>
    refine List.IsPrefix.trans ?_ (ih h)
    rw [List.reverse_cons]
    exact List.prefix_append _ _
  | case3 => cases h

theorem isSkipped_of_comment {cs raw rest : List Char} (h : cutComment cs = some (raw, rest)) :
    IsSkipped raw := by
  unfold cutComment at h
  split at h
  · cases h
    exact Or.inr (Or.inl ⟨_, rfl⟩)
  · cases h
    exact Or.inr (Or.inr (Or.inl ⟨_, rfl⟩))
  · exact Or.inr (Or.inr (Or.inr (cutBlock_extends h)))
  · cases h

/-- A piece without a lexeme is white space or a comment. -/
theorem isSkipped_of_piece {cs : List Char} {p : Piece} (h : piece? cs = some p)
    (hl : p.lexeme = none) : IsSkipped p.raw := by
  cases kindOf_iff.mpr h with
  | blanks hcut => exact Or.inl (forall_of_cutRun hcut)
  | comment hcut => exact isSkipped_of_comment hcut
  | string | number | name | arrow | dashes | mark => cases hl

/-- Only at the end of a line there is no stray character. -/
theorem ne_newline_of_stray {c : Char} {cs : List Char} (h : piece? (c :: cs) = none) :
    c ≠ '\n' := by
  rintro rfl
  have hblank : Text.isBlank '\n' = true := by decide
  simp [piece?, cutRun, hblank, Cut.piece] at h

section Pieces

variable {cs rest : List Char} {ps : List Piece}

/-- **Pieces make up the text** with what is left. -/
theorem Pieces.rawOf_append (h : Pieces cs ps rest) : rawOf ps ++ rest = cs := by
  induction h with
  | nil => rfl
  | @cons cs rest p ps hp _ ih =>
    have hsplit := (piece?_append hp).2
    rw [rawOf, List.flatMap_cons, List.append_assoc, ← hsplit]
    exact congrArg (p.raw ++ ·) ih

theorem Pieces.skipped (h : Pieces cs ps rest) :
    ∀ p ∈ ps, p.raw ≠ [] ∧ (p.lexeme = none → IsSkipped p.raw) := by
  induction h with
  | nil => exact fun p hp => absurd hp List.not_mem_nil
  | cons hp _ ih =>
    exact List.forall_mem_cons.mpr ⟨⟨(piece?_append hp).1, isSkipped_of_piece hp⟩, ih⟩

/-- A token of pieces is one of them, at its place. -/
theorem mem_tokensBehind {before : List Char} {t : Token} (h : t ∈ tokensBehind before ps) :
    ∃ ps₁ p ps₂, ps = ps₁ ++ p :: ps₂ ∧ p.lexeme = some t.lexeme ∧ t.raw = p.raw ∧
      t.position = .behind (before ++ rawOf ps₁) := by
  induction ps generalizing before with
  | nil => exact absurd h List.not_mem_nil
  | cons p ps ih =>
    rcases List.mem_append.mp h with h | h
    · obtain ⟨lexeme, hl, rfl⟩ := Option.map_eq_some_iff.mp (Option.mem_toList.mp h)
      exact ⟨[], p, ps, rfl, hl, rfl, by rw [rawOf, List.flatMap_nil, List.append_nil]⟩
    · obtain ⟨ps₁, q, ps₂, rfl, hl, hraw, hplace⟩ := ih h
      exact ⟨p :: ps₁, q, ps₂, rfl, hl, hraw, by rw [hplace, List.append_assoc]; rfl⟩

theorem Pieces.standsAt (h : Pieces cs ps rest) {t : Token} (ht : t ∈ tokensBehind [] ps) :
    t.raw ≠ [] ∧ ∃ more, StandsAt cs t.position (t.raw ++ more) := by
  obtain ⟨ps₁, p, ps₂, rfl, -, hraw, hplace⟩ := mem_tokensBehind ht
  refine ⟨?_, rawOf ps₂ ++ rest, rawOf ps₁, ?_, hplace.symm⟩
  · rw [hraw]
    exact (h.skipped p (by simp)).1
  · rw [← h.rawOf_append, hraw]
    simp [rawOf]

end Pieces

/-! ### Scans -/

section Steps

variable (done : List Token) (position : Position) {cs : List Char}

theorem scanFrom_nil : scanFrom done position [] = .ok ⟨done.reverse, position⟩ := by
  rw [scanFrom.eq_def]

theorem scanFrom_stray (hne : cs ≠ []) (h : piece? cs = none) : scanFrom done position cs =
    .error ⟨.strayCharacter, String.ofList (strayFragment cs), some position⟩ := by
  obtain ⟨c, cs, rfl⟩ := List.exists_cons_of_ne_nil hne
  rw [scanFrom.eq_def]
  dsimp only
  split
  · rfl
  · next hp =>
    rw [h] at hp
    cases hp

/-- A scan goes on behind a piece, with its token. -/
theorem scanFrom_piece {p : Piece} (h : piece? cs = some p) : scanFrom done position cs =
    scanFrom ((p.tokens position).reverse ++ done) (position.advance p.raw) p.rest := by
  cases cs with
  | nil => cases h
  | cons c cs =>
    rw [scanFrom.eq_def]
    dsimp only
    split
    · next hp =>
      rw [h] at hp
      cases hp
    · next q hp =>
      rw [h] at hp
      cases hp
      unfold Piece.tokens
      cases p.lexeme <;> rfl

end Steps

/-- Every text begins with pieces as far as there are some. -/
theorem exists_pieces (cs : List Char) :
    ∃ ps rest, Pieces cs ps rest ∧ (rest = [] ∨ rest ≠ [] ∧ piece? rest = none) := by
  induction hn : cs.length using Nat.strong_induction_on generalizing cs with
  | _ n ih =>
    subst hn
    cases hp : piece? cs with
    | none =>
      refine ⟨[], cs, .nil, ?_⟩
      by_cases hne : cs = []
      · exact Or.inl hne
      · exact Or.inr ⟨hne, hp⟩
    | some p =>
      obtain ⟨ps, rest, hps, hend⟩ := ih p.rest.length (piece?_length_lt hp) p.rest rfl
      exact ⟨p :: ps, rest, .cons hp hps, hend⟩

/-- A scan goes on behind pieces, with their tokens. -/
theorem scanFrom_pieces {cs rest : List Char} {ps : List Piece} (h : Pieces cs ps rest)
    (done : List Token) (before : List Char) : scanFrom done (.behind before) cs =
      scanFrom ((tokensBehind before ps).reverse ++ done) (.behind (before ++ rawOf ps)) rest := by
  induction h generalizing done before with
  | nil => rw [rawOf, List.flatMap_nil, List.append_nil]; rfl
  | @cons cs rest p ps hp _ ih =>
    have hplace : before ++ p.raw ++ rawOf ps = before ++ rawOf (p :: ps) := by
      rw [List.append_assoc]
      rfl
    rw [scanFrom_piece done _ hp, Position.advance_behind, ih, hplace, tokensBehind,
      List.reverse_append, List.append_assoc]

/-- **A scan takes pieces as long as there is one**: up to the end of the text, or to a character
that no piece begins with. -/
theorem scanFrom_cases (done : List Token) (before cs : List Char) : ∃ ps rest, Pieces cs ps rest ∧
    (rest = [] ∧ scanFrom done (.behind before) cs =
        .ok ⟨done.reverse ++ tokensBehind before ps, .behind (before ++ rawOf ps)⟩ ∨
      rest ≠ [] ∧ piece? rest = none ∧ scanFrom done (.behind before) cs =
        .error ⟨.strayCharacter, String.ofList (strayFragment rest),
          some (.behind (before ++ rawOf ps))⟩) := by
  obtain ⟨ps, rest, hps, rfl | ⟨hne, hstray⟩⟩ := exists_pieces cs
  · refine ⟨ps, [], hps, Or.inl ⟨rfl, ?_⟩⟩
    rw [scanFrom_pieces hps, scanFrom_nil, List.reverse_append, List.reverse_reverse]
  · refine ⟨ps, rest, hps, Or.inr ⟨hne, hstray, ?_⟩⟩
    rw [scanFrom_pieces hps, scanFrom_stray _ _ hne hstray]

/-- A text that is made up of pieces is cut into their tokens. -/
theorem scan_of_pieces {text : String} {ps : List Piece} (h : Pieces text.toList ps []) :
    scan text = .ok ⟨tokensBehind [] ps, .behind (rawOf ps)⟩ := by
  have hscan : scanFrom [] (.behind []) text.toList = _ := scanFrom_pieces h [] []
  rw [scanFrom_nil, List.append_nil, List.reverse_reverse] at hscan
  exact hscan

theorem scan_cases (text : String) : ∃ ps rest, Pieces text.toList ps rest ∧
    (rest = [] ∧ scan text = .ok ⟨tokensBehind [] ps, .behind (rawOf ps)⟩ ∨
      rest ≠ [] ∧ piece? rest = none ∧ scan text =
        .error ⟨.strayCharacter, String.ofList (strayFragment rest), some (.behind (rawOf ps))⟩) :=
  scanFrom_cases [] [] text.toList

theorem strayFragment_begins (cs : List Char) : strayFragment cs <+: cs :=
  (List.takeWhile_prefix _).trans (List.take_prefix _ _)

theorem strayFragment_ne_nil {cs : List Char} (hne : cs ≠ []) (h : piece? cs = none) :
    strayFragment cs ≠ [] := by
  obtain ⟨c, cs, rfl⟩ := List.exists_cons_of_ne_nil hne
  have hc : (c != '\n') = true := by simpa using ne_newline_of_stray h
  simp [strayFragment, hc]

/-- The fault of a text has a place, where the text goes on with the fragment or ends; or the graph
is too large. -/
theorem read_fault {text : String} {f : Fault} (h : read text = .error f) :
    (∃ p rest, f.position = some p ∧ StandsAt text.toList p rest ∧
      (f.fragment ≠ "" ∧ f.fragment.toList <+: rest ∨ f.fragment = "<end of input>" ∧ rest = [])) ∨
    ∃ nodes edges, f = ⟨.tooLarge nodes edges, "", none⟩ := by
  obtain ⟨ps, rest, hps, ⟨rfl, hscan⟩ | ⟨hne, hstray, hscan⟩⟩ := scan_cases text
  · have hread : ofTokens ⟨tokensBehind [] ps, .behind (rawOf ps)⟩ = .error f := by
      rw [read, hscan] at h
      exact h
    rcases ofTokens_fault hread with ⟨t, ht, hfragment, hplace⟩ | ⟨hfragment, hplace⟩ | hlarge
    · obtain ⟨hraw, more, hat⟩ := hps.standsAt ht
      refine Or.inl ⟨t.position, t.raw ++ more, hplace, hat, Or.inl ⟨?_, ?_⟩⟩
      · rw [hfragment]
        simpa using hraw
      · rw [hfragment, String.toList_ofList]
        exact List.prefix_append _ _
    · exact Or.inl ⟨_, [], hplace, ⟨rawOf ps, hps.rawOf_append, rfl⟩, Or.inr ⟨hfragment, rfl⟩⟩
    · exact Or.inr hlarge
  · rw [read, hscan] at h
    cases h
    refine Or.inl ⟨_, rest, rfl, ⟨rawOf ps, hps.rawOf_append, rfl⟩, Or.inl ⟨?_, ?_⟩⟩
    · simpa using strayFragment_ne_nil hne hstray
    · show (String.ofList (strayFragment rest)).toList <+: rest
      rw [String.toList_ofList]
      exact strayFragment_begins rest

/-- **Tokens and faults are where they say.**  If a text is cut into tokens, its pieces, the tokens
and the white space and comments between them, make up the text in order, and every token and the
end have the place behind all that is before them.  If it is not, the fault has the place of the
first character that no piece begins with.  Where the place of a fault lies, and it lies at one
point only, the text goes on with the fragment of the fault, or it ends there and the fragment says
so; only the fault of a graph that is too large has no place. -/
theorem scan_places (text : String) :
    (∀ s, scan text = .ok s → ∃ ps, Pieces text.toList ps [] ∧ rawOf ps = text.toList ∧
      (∀ p ∈ ps, p.lexeme = none → IsSkipped p.raw) ∧
      s.tokens = tokensBehind [] ps ∧ s.finish = .behind text.toList) ∧
    (∀ f, scan text = .error f → ∃ ps rest, Pieces text.toList ps rest ∧
      rawOf ps ++ rest = text.toList ∧ rest ≠ [] ∧ piece? rest = none ∧
      f.position = some (.behind (rawOf ps))) ∧
    (∀ f p, read text = .error f → f.position = some p → ∃ rest, StandsAt text.toList p rest ∧
      (∀ rest', StandsAt text.toList p rest' → rest' = rest) ∧
      (f.fragment ≠ "" ∧ f.fragment.toList <+: rest ∨ f.fragment = "<end of input>" ∧ rest = [])) ∧
    ∀ f, read text = .error f → f.position = none →
      ∃ nodes edges, f.cause = .tooLarge nodes edges := by
  refine ⟨fun s hs => ?_, fun f hf => ?_, fun f p hf hp => ?_, fun f hf hp => ?_⟩
  · obtain ⟨ps, rest, hps, ⟨rfl, hscan⟩ | ⟨-, -, hscan⟩⟩ := scan_cases text
    · cases hscan.symm.trans hs
      have hall : rawOf ps = text.toList := by rw [← hps.rawOf_append, List.append_nil]
      exact ⟨ps, hps, hall, fun p hp => (hps.skipped p hp).2, rfl, congrArg Position.behind hall⟩
    · cases hscan.symm.trans hs
  · obtain ⟨ps, rest, hps, ⟨-, hscan⟩ | ⟨hne, hstray, hscan⟩⟩ := scan_cases text
    · cases hscan.symm.trans hf
    · cases hscan.symm.trans hf
      exact ⟨ps, rest, hps, hps.rawOf_append, hne, hstray, rfl⟩
  · rcases read_fault hf with ⟨q, rest, hq, hat, hfragment⟩ | ⟨_, _, rfl⟩
    · cases hp.symm.trans hq
      exact ⟨rest, hat, fun rest' => hat.unique, hfragment⟩
    · cases hp
  · rcases read_fault hf with ⟨q, _, hq, -⟩ | ⟨nodes, edges, rfl⟩
    · cases hp.symm.trans hq
    · exact ⟨nodes, edges, rfl⟩

/-- A chain that lacks its last target, with a comment and a string over two lines each. -/
def brokenSample : String := "digraph \x7b /* a\n b */\n \"x\ny\" -> \x7d"

/-- A scan that succeeds, and a fault behind a line feed in a string. -/
theorem scan_places_broken : (∃ s, scan brokenSample = .ok s ∧ s.finish = ⟨4, 8⟩) ∧
    ∃ f, read brokenSample = .error f ∧ f.position = some ⟨4, 7⟩ ∧
      ∃ rest, StandsAt brokenSample.toList ⟨4, 7⟩ rest ∧ f.fragment.toList <+: rest := by
  obtain ⟨hscan, -, hread, -⟩ := scan_places brokenSample
  obtain ⟨s, hs⟩ : ∃ s, scan brokenSample = .ok s := exists_ok_of_isOk (by decide +kernel)
  obtain ⟨-, -, -, -, -, hfinish⟩ := hscan s hs
  refine ⟨⟨s, hs, hfinish.trans (by decide)⟩, ?_⟩
  have hfault : (match read brokenSample with
      | .error f => f.position == some ⟨4, 7⟩ && f.fragment == "\x7d"
      | .ok _ => false) = true := by decide +kernel
  cases h : read brokenSample with
  | ok g =>
    rw [h] at hfault
    cases hfault
  | error f =>
    rw [h, Bool.and_eq_true, beq_iff_eq, beq_iff_eq] at hfault
    obtain ⟨hplace, hbrace⟩ := hfault
    obtain ⟨rest, hat, -, ⟨-, hfragment⟩ | ⟨hend, -⟩⟩ := hread f _ h hplace
    · exact ⟨f, rfl, hplace, rest, hat, hfragment⟩
    · exact absurd (hbrace.symm.trans hend) (by decide)

end Scrawl.Description
