import Scrawl.Description.Fault
import Scrawl.Text.Blank
import Scrawl.Text.Digit
/-!
# Scrawl.Description.Lexer — cutting a description into tokens

At every place the first of these that matches is taken, as long as it goes: white space, a comment,
a quoted string, a number, a name, an arrow, two dashes, a mark.  White space and comments are
dropped.  Each cutter splits its input in two, the first part not empty (`Cut.Sound`), so the tokens
and what lies between them make up the text.
-/

namespace Scrawl.Description

open Scrawl.Text

/-- A start of a text and what follows it. -/
abbrev Cut := Option (List Char × List Char)

/-- The cut, if there is one, splits `cs` into two parts of which the first is not empty. -/
def Cut.Sound (cs : List Char) (cut : Cut) : Prop :=
  ∀ raw rest, cut = some (raw, rest) → raw ≠ [] ∧ raw ++ rest = cs

/-- The longest run of characters in `p`, if it is not empty. -/
def cutRun (p : Char → Bool) (cs : List Char) : Cut :=
  match cs with
  | [] => none
  | c :: rest => if p c then some (c :: rest.takeWhile p, rest.dropWhile p) else none

/-- Everything up to the first `*/`; `taken` is what lies before, last character first. -/
def cutBlock (taken : List Char) : List Char → Cut
  | '*' :: '/' :: rest => some (taken.reverse ++ ['*', '/'], rest)
  | c :: rest => cutBlock (c :: taken) rest
  | [] => none

/-- A comment: to the end of the line after `//` or `#`, or between `/*` and `*/`. -/
def cutComment : List Char → Cut
  | '/' :: '/' :: rest =>
    some ('/' :: '/' :: rest.takeWhile (· != '\n'), rest.dropWhile (· != '\n'))
  | '#' :: rest => some ('#' :: rest.takeWhile (· != '\n'), rest.dropWhile (· != '\n'))
  | '/' :: '*' :: rest => cutBlock ['*', '/'] rest
  | _ => none

/-- Everything up to the closing quote; `taken` is what lies before, last character first. -/
def cutQuoted (taken : List Char) : List Char → Cut
  | '"' :: rest => some (taken.reverse ++ ['"'], rest)
  | '\\' :: c :: rest => cutQuoted (c :: '\\' :: taken) rest
  | c :: rest => if c == '\\' then none else cutQuoted (c :: taken) rest
  | [] => none

/-- A quoted string; a backslash keeps the character after it from closing the string. -/
def cutString : List Char → Cut
  | '"' :: rest => cutQuoted ['"'] rest
  | _ => none

/-- Digits with an optional point among or after them, or a point and digits. -/
def cutUnsigned (cs : List Char) : Cut :=
  match cs with
  | '.' :: rest => (cutRun isDigit rest).map fun (digits, more) => ('.' :: digits, more)
  | _ =>
    match cutRun isDigit cs with
    | some (digits, '.' :: more) =>
      some (digits ++ '.' :: more.takeWhile isDigit, more.dropWhile isDigit)
    | cut => cut

/-- A number with an optional minus sign. -/
def cutNumber : List Char → Cut
  | '-' :: rest => (cutUnsigned rest).map fun (raw, more) => ('-' :: raw, more)
  | cs => cutUnsigned cs

/-- Whether a name may start with the character: a letter, an underscore, or any character outside
ASCII. -/
def isNameStart (c : Char) : Bool := c.isAlpha || c == '_' || 0x80 ≤ c.toNat

/-- Whether a name may go on with the character. -/
def isNamePart (c : Char) : Bool := isNameStart c || c.isDigit || c == '.'

/-- A name. -/
def cutName (cs : List Char) : Cut :=
  match cs with
  | [] => none
  | c :: rest =>
    if isNameStart c then some (c :: rest.takeWhile isNamePart, rest.dropWhile isNamePart) else none

/-- What a quoted string stands for, from the text between its quotes: behind a backslash `n`, `l`
and `r` are line breaks and every other character is itself. -/
def unescape : List Char → List Char
  | '\\' :: c :: rest => (if c == 'n' || c == 'l' || c == 'r' then '\n' else c) :: unescape rest
  | c :: rest => c :: unescape rest
  | [] => []

/-- The lexeme of a name: a keyword in any case, or the name. -/
def nameLexeme (raw : List Char) : Lexeme :=
  match Keyword.ofName? (String.ofList (raw.map Char.toLower)) with
  | some k => .keyword k
  | none => .name (String.ofList raw)

/-- A piece of a text: a lexeme, or nothing for what is skipped. -/
structure Piece where
  lexeme : Option Lexeme
  raw : List Char
  rest : List Char

/-- The piece of a cut. -/
def Cut.piece (cut : Cut) (lexeme : List Char → Option Lexeme) : Option Piece :=
  cut.map fun (raw, rest) => ⟨lexeme raw, raw, rest⟩

/-- An arrow, two dashes or a mark. -/
def signPiece? : List Char → Option Piece
  | '-' :: '>' :: rest => some ⟨some .arrow, ['-', '>'], rest⟩
  | '-' :: '-' :: rest => some ⟨some .dashes, ['-', '-'], rest⟩
  | c :: rest => (Mark.ofChar? c).map fun m => ⟨some (.mark m), [c], rest⟩
  | [] => none

/-- The piece at the start of a text. -/
def piece? (cs : List Char) : Option Piece :=
  (Cut.piece (cutRun isBlank cs) fun _ => none)
  <|> (Cut.piece (cutComment cs) fun _ => none)
  <|> (Cut.piece (cutString cs) fun raw =>
    some (.quoted (String.ofList (unescape (raw.drop 1).dropLast))))
  <|> (Cut.piece (cutNumber cs) fun raw => some (.number (String.ofList raw)))
  <|> (Cut.piece (cutName cs) fun raw => some (nameLexeme raw))
  <|> signPiece? cs

/-! ### Pieces make up the text -/

theorem takeWhile_append_dropWhile (p : Char → Bool) (cs : List Char) :
    cs.takeWhile p ++ cs.dropWhile p = cs := List.takeWhile_append_dropWhile

theorem Cut.Sound.none {cs : List Char} : Cut.Sound cs none := by
  intro raw rest h
  cases h

theorem Cut.Sound.cons {cs : List Char} {cut : Cut} (c : Char) (h : Cut.Sound cs cut) :
    Cut.Sound (c :: cs) (cut.map fun (raw, rest) => (c :: raw, rest)) := by
  intro raw rest hc
  cases cut with
  | none => cases hc
  | some p =>
    obtain ⟨u, v⟩ := p
    obtain ⟨rfl, rfl⟩ : c :: u = raw ∧ v = rest := by simpa using hc
    exact ⟨by simp, by rw [List.cons_append, (h u v rfl).2]⟩

theorem cutRun_sound (p : Char → Bool) (cs : List Char) : Cut.Sound cs (cutRun p cs) := by
  intro raw rest h
  cases cs with
  | nil => cases h
  | cons c cs =>
    simp only [cutRun] at h
    split at h
    · obtain ⟨rfl, rfl⟩ : c :: cs.takeWhile p = raw ∧ cs.dropWhile p = rest := by simpa using h
      exact ⟨by simp, by rw [List.cons_append, takeWhile_append_dropWhile]⟩
    · cases h

theorem cutBlock_append {taken cs raw rest : List Char} (h : cutBlock taken cs = some (raw, rest)) :
    raw ≠ [] ∧ raw ++ rest = taken.reverse ++ cs := by
  fun_induction cutBlock taken cs with
  | case1 taken more =>
    obtain ⟨rfl, rfl⟩ : taken.reverse ++ ['*', '/'] = raw ∧ more = rest := by simpa using h
    simp
  | case2 taken c more _ ih => simpa using ih h
  | case3 => cases h

theorem cutComment_sound (cs : List Char) : Cut.Sound cs (cutComment cs) := by
  intro raw rest h
  unfold cutComment at h
  split at h
  · next more =>
    obtain ⟨rfl, rfl⟩ : '/' :: '/' :: more.takeWhile (· != '\n') = raw ∧
        more.dropWhile (· != '\n') = rest := by simpa using h
    exact ⟨by simp, by simp only [List.cons_append, takeWhile_append_dropWhile]⟩
  · next more =>
    obtain ⟨rfl, rfl⟩ : '#' :: more.takeWhile (· != '\n') = raw ∧
        more.dropWhile (· != '\n') = rest := by simpa using h
    exact ⟨by simp, by simp only [List.cons_append, takeWhile_append_dropWhile]⟩
  · simpa using cutBlock_append h
  · cases h

theorem cutQuoted_append {taken cs raw rest : List Char}
    (h : cutQuoted taken cs = some (raw, rest)) :
    raw ≠ [] ∧ raw ++ rest = taken.reverse ++ cs := by
  fun_induction cutQuoted taken cs with
  | case1 taken more =>
    obtain ⟨rfl, rfl⟩ : taken.reverse ++ ['"'] = raw ∧ more = rest := by simpa using h
    simp
  | case2 taken c more ih => simpa using ih h
  | case3 => cases h
  | case4 taken c more _ _ _ ih => simpa using ih h
  | case5 => cases h

theorem cutString_sound (cs : List Char) : Cut.Sound cs (cutString cs) := by
  intro raw rest h
  unfold cutString at h
  split at h
  · simpa using cutQuoted_append h
  · cases h

theorem cutUnsigned_sound (cs : List Char) : Cut.Sound cs (cutUnsigned cs) := by
  unfold cutUnsigned
  split
  · exact (cutRun_sound isDigit _).cons '.'
  · have hs := cutRun_sound isDigit cs
    split
    · next digits more hd =>
      intro raw rest h
      obtain ⟨rfl, rfl⟩ : digits ++ '.' :: more.takeWhile isDigit = raw ∧
          more.dropWhile isDigit = rest := by simpa using h
      refine ⟨by simp, ?_⟩
      rw [← (hs _ _ hd).2]
      simp only [List.append_assoc, List.cons_append, takeWhile_append_dropWhile]
    · exact hs

theorem cutNumber_sound (cs : List Char) : Cut.Sound cs (cutNumber cs) := by
  unfold cutNumber
  split
  · exact (cutUnsigned_sound _).cons '-'
  · exact cutUnsigned_sound _

theorem cutName_sound (cs : List Char) : Cut.Sound cs (cutName cs) := by
  intro raw rest h
  cases cs with
  | nil => cases h
  | cons c cs =>
    simp only [cutName] at h
    split at h
    · obtain ⟨rfl, rfl⟩ : c :: cs.takeWhile isNamePart = raw ∧ cs.dropWhile isNamePart = rest := by
        simpa using h
      exact ⟨by simp, by rw [List.cons_append, takeWhile_append_dropWhile]⟩
    · cases h

theorem Cut.Sound.piece {cs : List Char} {cut : Cut} {f : List Char → Option Lexeme} {p : Piece}
    (hs : Cut.Sound cs cut) (h : cut.piece f = some p) : p.raw ≠ [] ∧ p.raw ++ p.rest = cs := by
  cases cut with
  | none => cases h
  | some q =>
    obtain ⟨raw, rest⟩ := q
    obtain rfl : (⟨f raw, raw, rest⟩ : Piece) = p := by simpa [Cut.piece] using h
    exact hs raw rest rfl

theorem signPiece?_append {cs : List Char} {p : Piece} (h : signPiece? cs = some p) :
    p.raw ≠ [] ∧ p.raw ++ p.rest = cs := by
  unfold signPiece? at h
  split at h
  · cases h; simp
  · cases h; simp
  · obtain ⟨m, -, rfl⟩ := Option.map_eq_some_iff.1 h
    simp
  · cases h

theorem orElse_cases {β : Type} {a : Option β} {f : Unit → Option β} {b : β}
    (h : (HOrElse.hOrElse a f : Option β) = some b) : a = some b ∨ f () = some b := by
  cases a with
  | none => exact .inr h
  | some _ => exact .inl h

/-- A piece is not empty, and with the rest behind it gives the text back. -/
theorem piece?_append {cs : List Char} {p : Piece} (h : piece? cs = some p) :
    p.raw ≠ [] ∧ p.raw ++ p.rest = cs := by
  rcases orElse_cases h with h | h
  · exact (cutRun_sound isBlank cs).piece h
  rcases orElse_cases h with h | h
  · exact (cutComment_sound cs).piece h
  rcases orElse_cases h with h | h
  · exact (cutString_sound cs).piece h
  rcases orElse_cases h with h | h
  · exact (cutNumber_sound cs).piece h
  rcases orElse_cases h with h | h
  · exact (cutName_sound cs).piece h
  · exact signPiece?_append h

theorem piece?_length_lt {cs : List Char} {p : Piece} (h : piece? cs = some p) :
    p.rest.length < cs.length := by
  have ⟨hne, happ⟩ := piece?_append h
  have := congrArg List.length happ
  have := List.length_pos_iff.2 hne
  simp only [List.length_append] at *
  omega

/-! ### The token list -/

/-- The tokens of a text and the place where it ends. -/
structure Scan where
  tokens : List Token
  finish : Position
  deriving DecidableEq

/-- The text that a stray character is reported with: it and what follows on its line, at most
twenty characters. -/
def strayFragment (cs : List Char) : List Char := (cs.take 20).takeWhile (· != '\n')

/-- Reads the tokens from `position` on; `done` holds those before, last first. -/
def scanFrom (done : List Token) (position : Position) (cs : List Char) : Except Fault Scan :=
  match cs with
  | [] => .ok ⟨done.reverse, position⟩
  | c :: cs =>
    match _h : piece? (c :: cs) with
    | none =>
      .error ⟨.strayCharacter, String.ofList (strayFragment (c :: cs)), some position⟩
    | some p =>
      let done := match p.lexeme with
        | some lexeme => ⟨lexeme, p.raw, position⟩ :: done
        | none => done
      scanFrom done (position.advance p.raw) p.rest
termination_by cs.length
decreasing_by exact piece?_length_lt _h

/-- Cuts a text into its tokens. -/
def scan (text : String) : Except Fault Scan := scanFrom [] {} text.toList

end Scrawl.Description
