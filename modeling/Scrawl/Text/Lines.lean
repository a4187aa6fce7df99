/-!
# Scrawl.Text.Lines — cutting a text into lines

`splitLines` ends a line at every line boundary of Unicode and the control characters that act as
one, a carriage return and line feed counting once; no empty line follows the last boundary.
`splitOnNewline` cuts at line feeds only and keeps every piece.  `unifyNewlines` turns the three
spellings of a line end into the line feed.
-/

namespace Scrawl.Text

/-- The characters that end a line. -/
def isLineBoundary (c : Char) : Bool :=
  let n := c.toNat
  (0x0A ≤ n && n ≤ 0x0D) || (0x1C ≤ n && n ≤ 0x1E) || n == 0x85 || n == 0x2028 || n == 0x2029

/-- The lines of `cs` when `line` (last character first) is already read. -/
def splitLinesFrom (line : List Char) : List Char → List (List Char)
  | [] => if line.isEmpty then [] else [line.reverse]
  | '\r' :: '\n' :: rest => line.reverse :: splitLinesFrom [] rest
  | c :: rest =>
    if isLineBoundary c then line.reverse :: splitLinesFrom [] rest
    else splitLinesFrom (c :: line) rest

/-- The lines of a text, without their ends. -/
def splitLines (s : String) : List String := (splitLinesFrom [] s.toList).map String.ofList

/-- The pieces between the occurrences of `mark`; always at least one. -/
def splitOnChar (mark : Char) : List Char → List (List Char)
  | [] => [[]]
  | c :: rest =>
    if c == mark then [] :: splitOnChar mark rest
    else match splitOnChar mark rest with
      | [] => [[c]]
      | piece :: more => (c :: piece) :: more

/-- The pieces of a text between its line feeds; always at least one. -/
def splitOnNewline (s : String) : List String := (splitOnChar '\n' s.toList).map String.ofList

/-- Reads a carriage return, alone or before a line feed, as a line feed. -/
def unifyNewlines : List Char → List Char
  | [] => []
  | '\r' :: '\n' :: rest => '\n' :: unifyNewlines rest
  | c :: rest => (if c == '\r' then '\n' else c) :: unifyNewlines rest

end Scrawl.Text
