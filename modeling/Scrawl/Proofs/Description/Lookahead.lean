import Scrawl.Proofs.Description.Lexing
import Scrawl.Proofs.Description.Places

/-!
# Scrawl.Proofs.Description.Lookahead — what a piece depends on

A piece goes on as long as the characters behind it allow.  So where it ends, the next character is
one that it does not go on with, and it is the same in front of any text that begins with no such
character.

* `TakesBefore`: a cutter that goes on with some characters; one lemma for each cutter.
* `Piece.goesOn`: the characters that a piece goes on with.
* `takesBefore_piece`: a piece depends on the character behind it only.
* `Pieces.swap`: pieces in front of another text.
-/

namespace Scrawl.Description

open Text (Ends isBlank isDigit)

/-! ### Cutters -/

/-- Behind the text that the cutter has taken no character stands that it goes on with, and it takes
the same text in front of everything else that begins with none. -/
def TakesBefore (cutter : List Char → Cut) (goesOn : Char → Bool) (raw rest : List Char) : Prop :=
  Ends goesOn rest ∧ ∀ rest', Ends goesOn rest' → cutter (raw ++ rest') = some (raw, rest')

section Cutters

variable {cs raw rest taken : List Char}

theorem ends_dropWhile (p : Char → Bool) (cs : List Char) : Ends p (cs.dropWhile p) := by
  intro c hc
  have := List.head?_dropWhile_not p cs
  rw [Option.mem_def.mp hc] at this
  simpa using this

theorem span_takeWhile {p : Char → Bool} (cs : List Char) (h : Ends p rest) :
    (cs.takeWhile p ++ rest).takeWhile p = cs.takeWhile p ∧
      (cs.takeWhile p ++ rest).dropWhile p = rest :=
  Text.span_append (fun _ hd => List.mem_takeWhile_imp hd) h

theorem takesBefore_cutRun {p : Char → Bool} (h : cutRun p cs = some (raw, rest)) :
    TakesBefore (cutRun p) p raw rest := by
  cases cs with
  | nil => cases h
  | cons c cs =>
    simp only [cutRun] at h
    split at h <;> cases h
    next hc =>
    refine ⟨ends_dropWhile p cs, fun rest' hrest => ?_⟩
    obtain ⟨htake, hdrop⟩ := span_takeWhile cs hrest
    simp only [List.cons_append, cutRun, hc, if_true, htake, hdrop]

/-- A block is the same whatever is behind it. -/
theorem cutBlock_before (h : cutBlock taken cs = some (raw, rest)) :
    ∃ mid, raw = taken.reverse ++ mid ∧ mid ≠ [] ∧ mid ++ rest = cs ∧
      ∀ rest', cutBlock taken (mid ++ rest') = some (raw, rest') := by
  fun_induction cutBlock taken cs with
  | case1 taken more =>
    cases h
    exact ⟨['*', '/'], rfl, by simp, rfl, fun rest' => rfl⟩
  | case2 taken c more hopen ih =>
    obtain ⟨mid, hraw, hne, hmid, hcut⟩ := ih h
    refine ⟨c :: mid, by simpa using hraw, by simp, by rw [List.cons_append, hmid], ?_⟩
    intro rest'
    obtain ⟨d, mid, rfl⟩ := List.exists_cons_of_ne_nil hne
    rw [List.cons_append, cutBlock]
    · exact hcut rest'
    · rintro ds rfl hds
      obtain ⟨rfl, -⟩ : d = '/' ∧ _ := List.cons_eq_cons.mp hds
      exact hopen (mid ++ rest) rfl (by rw [← hmid]; rfl)
  | case3 => cases h

/-- A quoted text is the same whatever is behind it. -/
theorem cutQuoted_before (h : cutQuoted taken cs = some (raw, rest)) :
    ∃ mid, raw = taken.reverse ++ mid ∧ mid ++ rest = cs ∧
      ∀ rest', cutQuoted taken (mid ++ rest') = some (raw, rest') := by
  fun_induction cutQuoted taken cs with
  | case1 taken more =>
    cases h
    exact ⟨['"'], rfl, rfl, fun rest' => rfl⟩
  | case2 taken c more ih =>
    obtain ⟨mid, hraw, hmid, hcut⟩ := ih h
    exact ⟨'\\' :: c :: mid, by simpa using hraw, by rw [← hmid]; rfl, hcut⟩
  | case3 => cases h
  | case4 taken c more hquote hback hc ih =>
    obtain ⟨mid, hraw, hmid, hcut⟩ := ih h
    refine ⟨c :: mid, by simpa using hraw, by rw [← hmid]; rfl, fun rest' => ?_⟩
    have hc' : c ≠ '\\' := by simpa using hc
    rw [List.cons_append, cutQuoted]
    · simpa [hc'] using hcut rest'
    · simpa using hquote
    · intro d ds hd _
      exact hc' hd
  | case5 => cases h

theorem takesBefore_cutString (h : cutString cs = some (raw, rest)) :
    TakesBefore cutString (fun _ => false) raw rest := by
  unfold cutString at h
  split at h
  · obtain ⟨mid, rfl, -, hcut⟩ := cutQuoted_before h
    exact ⟨fun _ _ => rfl, fun rest' _ => hcut rest'⟩
  · cases h

/-- Whether a comment goes on with a character. -/
def commentGoesOn : List Char → Char → Bool
  | '/' :: '*' :: _ => fun _ => false
  | _ => (· != '\n')

theorem commentGoesOn_cases (raw : List Char) :
    commentGoesOn raw = (fun _ => false) ∨ commentGoesOn raw = (· != '\n') := by
  unfold commentGoesOn
  split
  · exact Or.inl rfl
  · exact Or.inr rfl

theorem takesBefore_cutComment (h : cutComment cs = some (raw, rest)) :
    TakesBefore cutComment (commentGoesOn raw) raw rest := by
  unfold cutComment at h
  split at h
  · next more =>
    cases h
    refine ⟨ends_dropWhile _ more, fun rest' hrest => ?_⟩
    obtain ⟨htake, hdrop⟩ := span_takeWhile (p := (· != '\n')) more hrest
    simp only [List.cons_append, cutComment, htake, hdrop]
  · next more =>
    cases h
    refine ⟨ends_dropWhile _ more, fun rest' hrest => ?_⟩
    obtain ⟨htake, hdrop⟩ := span_takeWhile (p := (· != '\n')) more hrest
    simp only [List.cons_append, cutComment, htake, hdrop]
  · obtain ⟨mid, rfl, -, -, hcut⟩ := cutBlock_before h
    exact ⟨fun _ _ => rfl, fun rest' _ => hcut rest'⟩
  · cases h

/-- Whether a number goes on with a character: a digit, or its first point. -/
def numberGoesOn (raw : List Char) (c : Char) : Bool := isDigit c || (c == '.' && !raw.contains '.')

theorem ends_numberGoesOn : Ends (numberGoesOn raw) rest ↔
    Ends isDigit rest ∧ ('.' ∈ raw ∨ ∀ more, rest ≠ '.' :: more) := by
  cases rest with
  | nil => simp [Ends]
  | cons c rest =>
    by_cases hc : c = '.'
    · simp [Ends, numberGoesOn, hc]
    · simp [Ends, numberGoesOn, hc]

section Digits

variable {digits more : List Char}

theorem ne_point_of_run (h : cutRun isDigit cs = some (digits, more)) (ds : List Char) :
    cs ≠ '.' :: ds := by
  rintro rfl
  cases h

theorem cutUnsigned_of_point (h : cutRun isDigit cs = some (digits, '.' :: more)) :
    cutUnsigned cs =
      some (digits ++ '.' :: more.takeWhile isDigit, more.dropWhile isDigit) := by
  unfold cutUnsigned
  split
  · next ds => exact absurd rfl (ne_point_of_run h ds)
  · rw [h]
    rfl

theorem cutUnsigned_of_digits (h : cutRun isDigit cs = some (digits, more))
    (hmore : ∀ ds, more ≠ '.' :: ds) : cutUnsigned cs = some (digits, more) := by
  unfold cutUnsigned
  split
  · next ds => exact absurd rfl (ne_point_of_run h ds)
  · rw [h]
    split
    · next heq =>
      cases heq
      exact absurd rfl (hmore _)
    · rfl

theorem point_not_mem_run (h : cutRun isDigit cs = some (digits, more)) : '.' ∉ digits := by
  cases cs with
  | nil => cases h
  | cons c cs =>
    simp only [cutRun] at h
    split at h <;> cases h
    next hc =>
    intro hmem
    have hdigit : isDigit '.' := by
      rcases List.mem_cons.mp hmem with rfl | hmem
      · exact hc
      · exact List.mem_takeWhile_imp hmem
    exact absurd hdigit (by decide)

end Digits

theorem takesBefore_cutUnsigned (h : cutUnsigned cs = some (raw, rest)) :
    TakesBefore cutUnsigned (numberGoesOn raw) raw rest := by
  by_cases hhead : ∃ more, cs = '.' :: more
  · -- a point and digits
    obtain ⟨more, rfl⟩ := hhead
    obtain ⟨⟨digits, rest⟩, hrun, heq⟩ := Option.map_eq_some_iff.mp h
    cases heq
    obtain ⟨hends, htakes⟩ := takesBefore_cutRun hrun
    refine ⟨ends_numberGoesOn.mpr ⟨hends, Or.inl List.mem_cons_self⟩, fun rest' hrest => ?_⟩
    rw [List.cons_append, cutUnsigned, htakes rest' (ends_numberGoesOn.mp hrest).1]
    rfl
  · cases hrun : cutRun isDigit cs with
    | none =>
      unfold cutUnsigned at h
      split at h
      · next more => exact absurd ⟨more, rfl⟩ hhead
      · rw [hrun] at h
        cases h
    | some cut =>
      obtain ⟨digits, tail⟩ := cut
      obtain ⟨hends, htakes⟩ := takesBefore_cutRun hrun
      by_cases hpoint : ∃ more, tail = '.' :: more
      · obtain ⟨more, rfl⟩ := hpoint
        rw [cutUnsigned_of_point hrun] at h
        cases h
        refine ⟨ends_numberGoesOn.mpr ⟨ends_dropWhile _ more, Or.inl (by simp)⟩,
          fun rest' hrest => ?_⟩
        obtain ⟨htake, hdrop⟩ := span_takeWhile more (ends_numberGoesOn.mp hrest).1
        have hdot : Ends isDigit ('.' :: (more.takeWhile isDigit ++ rest')) := by
          rintro c ⟨⟩
          decide
        rw [List.append_assoc, List.cons_append, cutUnsigned_of_point (htakes _ hdot), htake,
          hdrop]
      · rw [cutUnsigned_of_digits hrun fun ds hds => hpoint ⟨ds, hds⟩] at h
        cases h
        refine ⟨ends_numberGoesOn.mpr ⟨hends, Or.inr fun ds hds => hpoint ⟨ds, hds⟩⟩,
          fun rest' hrest => ?_⟩
        obtain ⟨hdigits, hdot⟩ := ends_numberGoesOn.mp hrest
        exact cutUnsigned_of_digits (htakes _ hdigits)
          (hdot.resolve_left (point_not_mem_run hrun))

theorem takesBefore_cutNumber (h : cutNumber cs = some (raw, rest)) :
    TakesBefore cutNumber (numberGoesOn raw) raw rest := by
  unfold cutNumber at h
  split at h
  · next cs =>
    obtain ⟨⟨raw, rest⟩, hcut, heq⟩ := Option.map_eq_some_iff.mp h
    cases heq
    obtain ⟨hends, htakes⟩ := takesBefore_cutUnsigned hcut
    have hsign : numberGoesOn ('-' :: raw) = numberGoesOn raw := by
      funext c
      simp [numberGoesOn]
    rw [hsign]
    refine ⟨hends, fun rest' hrest => ?_⟩
    rw [List.cons_append, cutNumber, htakes rest' hrest]
    rfl
  · next hsign =>
    obtain ⟨hends, htakes⟩ := takesBefore_cutUnsigned h
    obtain ⟨hne, happ⟩ := cutUnsigned_sound cs raw rest h
    refine ⟨hends, fun rest' hrest => ?_⟩
    unfold cutNumber
    split
    · next more heq =>
      obtain ⟨c, raw, rfl⟩ := List.exists_cons_of_ne_nil hne
      obtain ⟨rfl, -⟩ := List.cons_eq_cons.mp heq
      exact absurd happ.symm (hsign _)
    · exact htakes rest' hrest

end Cutters

/-! ### Pieces -/

theorem not_blank_of_cutComment {cs raw rest : List Char} (h : cutComment cs = some (raw, rest)) :
    raw.all isBlank = false := by
  obtain ⟨c, ds, rfl, hc⟩ := head_of_cutComment h
  obtain ⟨hne, happ⟩ := cutComment_sound _ _ _ h
  obtain ⟨d, raw, rfl⟩ := List.exists_cons_of_ne_nil hne
  obtain ⟨rfl, -⟩ := List.cons_eq_cons.mp happ
  rcases hc with rfl | rfl <;> rfl

/-- Whether the piece goes on with a character, where that comes next. -/
def Piece.goesOn (p : Piece) : Char → Bool :=
  match p.lexeme with
  | none => if p.raw.all isBlank then isBlank else commentGoesOn p.raw
  | some (.number _) => numberGoesOn p.raw
  | some lexeme => if lexeme.isWord then isNamePart else fun _ => false

theorem goesOn_word {p : Piece} {lexeme : Lexeme} (h : p.lexeme = some lexeme)
    (hword : lexeme.isWord) : p.goesOn = isNamePart := by
  unfold Piece.goesOn
  rw [h]
  cases lexeme with
  | name | keyword => rfl
  | number | quoted | arrow | dashes | mark => cases hword

/-- **A piece goes on as long as it may, and depends on nothing else behind it.** -/
theorem takesBefore_piece {cs : List Char} {p : Piece} (h : piece? cs = some p) :
    Ends p.goesOn p.rest ∧
      ∀ rest, Ends p.goesOn rest → piece? (p.raw ++ rest) = some { p with rest } := by
  simp only [← kindOf_iff] at h ⊢
  cases h with
  | @blanks cs raw rest h =>
    have hall : raw.all isBlank := List.all_eq_true.mpr (forall_of_cutRun h)
    have hgoes : (⟨none, raw, rest⟩ : Piece).goesOn = isBlank := if_pos hall
    rw [hgoes]
    obtain ⟨hends, htakes⟩ := takesBefore_cutRun h
    exact ⟨hends, fun rest' hrest => .blanks (htakes rest' hrest)⟩
  | @comment cs raw rest h =>
    have hgoes : (⟨none, raw, rest⟩ : Piece).goesOn = commentGoesOn raw :=
      if_neg (by simp [not_blank_of_cutComment h])
    rw [hgoes]
    obtain ⟨hends, htakes⟩ := takesBefore_cutComment h
    exact ⟨hends, fun rest' hrest => .comment (htakes rest' hrest)⟩
  | string h =>
    obtain ⟨hends, htakes⟩ := takesBefore_cutString h
    exact ⟨hends, fun rest' hrest => .string (htakes rest' hrest)⟩
  | number h =>
    obtain ⟨hends, htakes⟩ := takesBefore_cutNumber h
    exact ⟨hends, fun rest' hrest => .number (htakes rest' hrest)⟩
  | @name c cs hc hblank hdigit =>
    rw [goesOn_word rfl (isWord_nameLexeme _)]
    refine ⟨ends_dropWhile _ cs, fun rest' hrest => ?_⟩
    obtain ⟨htake, hdrop⟩ := span_takeWhile cs hrest
    have hname := @KindOf.name c (cs.takeWhile isNamePart ++ rest') hc hblank hdigit
    rwa [htake, hdrop] at hname
  | arrow => exact ⟨fun _ _ => rfl, fun _ _ => .arrow⟩
  | dashes => exact ⟨fun _ _ => rfl, fun _ _ => .dashes⟩
  | mark m => exact ⟨fun _ _ => rfl, fun _ _ => .mark m⟩

/-- A text that begins with a token does not begin with white space. -/
theorem ends_isBlank_of_token {cs : List Char} {p : Piece} {lexeme : Lexeme}
    (h : piece? cs = some p) (hl : p.lexeme = some lexeme) : Ends isBlank cs := by
  intro c hc
  obtain ⟨ds, rfl⟩ := List.head?_eq_some_iff.mp hc
  by_contra hblank
  rw [Bool.not_eq_false] at hblank
  have hrun : cutRun isBlank (c :: ds) = some (c :: ds.takeWhile isBlank, ds.dropWhile isBlank) :=
    if_pos hblank
  rw [kindOf_iff.mp (.blanks hrun)] at h
  cases h
  cases hl

/-! ### Texts of pieces -/

/-- The lexemes of pieces with their texts. -/
def lexed (ps : List Piece) : List (Lexeme × List Char) :=
  ps.filterMap fun p => p.lexeme.map (·, p.raw)

theorem lexed_cons (p : Piece) (ps : List Piece) :
    lexed (p :: ps) = (p.lexeme.map (·, p.raw)).toList ++ lexed ps := by
  rw [lexed, List.filterMap_cons]
  cases p.lexeme <;> rfl

theorem lexed_append (ps qs : List Piece) : lexed (ps ++ qs) = lexed ps ++ lexed qs :=
  List.filterMap_append

theorem lexed_tokensBehind (before : List Char) (ps : List Piece) :
    (tokensBehind before ps).map (fun t => (t.lexeme, t.raw)) = lexed ps := by
  induction ps generalizing before with
  | nil => rfl
  | cons p ps ih =>
    rw [tokensBehind, List.map_append, ih, lexed_cons, Piece.tokens]
    cases p.lexeme <;> rfl

theorem rawOf_append_pieces (ps qs : List Piece) : rawOf (ps ++ qs) = rawOf ps ++ rawOf qs :=
  List.flatMap_append

section Pieces

variable {cs mid rest rest' : List Char} {p : Piece} {ps qs : List Piece}

theorem Pieces.one (h : piece? cs = some p) : Pieces cs [p] p.rest := .cons h .nil

theorem Pieces.append (h : Pieces cs ps mid) (h' : Pieces mid qs rest) :
    Pieces cs (ps ++ qs) rest := by
  induction h with
  | nil => exact h'
  | cons hp _ ih => exact .cons hp (ih h')

theorem Pieces.split (h : Pieces cs (ps ++ qs) rest) :
    ∃ mid, Pieces cs ps mid ∧ Pieces mid qs rest := by
  induction ps generalizing cs with
  | nil => exact ⟨cs, .nil, h⟩
  | cons p ps ih =>
    cases h with
    | cons hp hr =>
      obtain ⟨mid, hps, hqs⟩ := ih hr
      exact ⟨mid, .cons hp hps, hqs⟩

theorem ends_append_of_ne_nil {q : Char → Bool} (h : Ends q (cs ++ rest)) (hne : cs ≠ []) :
    Ends q (cs ++ rest') := by
  intro c hc
  rw [List.head?_append_of_ne_nil _ hne] at hc
  refine h c ?_
  rwa [List.head?_append_of_ne_nil _ hne]

/-- The last piece does not go on with what is behind it. -/
theorem Pieces.ends (h : Pieces cs ps rest) : ∀ p ∈ ps.getLast?, Ends p.goesOn rest := by
  induction h with
  | nil => exact fun p hp => by cases hp
  | @cons cs rest p ps hp hps ih =>
    intro u hu
    cases ps with
    | nil =>
      cases hps
      cases hu
      exact (takesBefore_piece hp).1
    | cons q ps => exact ih u (by simpa using hu)

/-- **Pieces are the same in front of another text**, if the last of them does not go on with it. -/
theorem Pieces.swap (h : Pieces cs ps rest) (hends : ∀ p ∈ ps.getLast?, Ends p.goesOn rest') :
    ∃ qs, Pieces (rawOf ps ++ rest') qs rest' ∧ lexed qs = lexed ps := by
  induction h with
  | nil => exact ⟨[], .nil, rfl⟩
  | @cons cs rest p ps hp hps ih =>
    obtain ⟨hstop, htakes⟩ := takesBefore_piece hp
    cases ps with
    | nil =>
      refine ⟨[{ p with rest := rest' }], ?_, rfl⟩
      rw [rawOf, List.flatMap_singleton]
      exact .one (htakes rest' (hends p rfl))
    | cons q ps =>
      obtain ⟨qs, hqs, hlexed⟩ := ih fun u hu => hends u (by simpa using hu)
      have hne : rawOf (q :: ps) ≠ [] := by
        obtain ⟨hraw, -⟩ := hps.skipped q List.mem_cons_self
        simp [rawOf, hraw]
      -- the next piece is the same, and so is the character that the first one stops at
      have hhead : Ends p.goesOn (rawOf (q :: ps) ++ rest') := by
        rw [← hps.rawOf_append] at hstop
        exact ends_append_of_ne_nil hstop hne
      refine ⟨{ p with rest := rawOf (q :: ps) ++ rest' } :: qs, ?_, ?_⟩
      · rw [rawOf, List.flatMap_cons, List.append_assoc]
        exact .cons (htakes _ hhead) hqs
      · rw [lexed_cons, lexed_cons p, hlexed]

end Pieces

end Scrawl.Description
