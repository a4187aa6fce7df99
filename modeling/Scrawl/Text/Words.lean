/-!
# Scrawl.Text.Words — splitting a line into words as a shell does

Words are separated by blanks.  An apostrophe or a double quote opens a quoted stretch up to the
next one of the same kind; a backslash outside quotes takes the next character as it is; between
double quotes it does so before a double quote or a backslash and stands for itself otherwise.
Quotes may stand inside a word, and an empty pair of quotes is an empty word.
-/

namespace Scrawl.Text

/-- Why a line has no words. -/
inductive WordError
  | noClosingQuotation
  | noEscapedCharacter
  deriving DecidableEq

/-- The wording of the error. -/
def WordError.message : WordError → String
  | noClosingQuotation => "No closing quotation"
  | noEscapedCharacter => "No escaped character"

/-- Where in a word the reader stands. -/
inductive WordMode
  /-- Between words. -/
  | gap
  /-- In a word, outside quotes. -/
  | bare
  /-- Behind a backslash outside quotes. -/
  | escaped
  /-- Between two marks `quote`. -/
  | inside (quote : Char)
  /-- Behind a backslash between double quotes. -/
  | insideEscaped
  deriving DecidableEq

/-- The characters that separate words. -/
def isWordGap (c : Char) : Bool := c == ' ' || c == '\t' || c == '\r' || c == '\n'

/-- Whether the character opens a quoted stretch. -/
def isQuoteMark (c : Char) : Bool := c == '\'' || c == '"'

/-- Reads the words of the rest of a line; `word` is the open word, last character first. -/
def wordsFrom : WordMode → List Char → List Char → Except WordError (List (List Char))
  | .gap, _, [] => .ok []
  | .bare, word, [] => .ok [word.reverse]
  | .inside _, _, [] => .error .noClosingQuotation
  | .escaped, _, [] => .error .noEscapedCharacter
  | .insideEscaped, _, [] => .error .noEscapedCharacter
  | .gap, _, c :: rest =>
    if isWordGap c then wordsFrom .gap [] rest
    else if c == '\\' then wordsFrom .escaped [] rest
    else if isQuoteMark c then wordsFrom (.inside c) [] rest
    else wordsFrom .bare [c] rest
  | .bare, word, c :: rest =>
    if isWordGap c then (wordsFrom .gap [] rest).map (word.reverse :: ·)
    else if c == '\\' then wordsFrom .escaped word rest
    else if isQuoteMark c then wordsFrom (.inside c) word rest
    else wordsFrom .bare (c :: word) rest
  | .inside quote, word, c :: rest =>
    if c == quote then wordsFrom .bare word rest
    else if c == '\\' && quote == '"' then wordsFrom .insideEscaped word rest
    else wordsFrom (.inside quote) (c :: word) rest
  | .escaped, word, c :: rest => wordsFrom .bare (c :: word) rest
  | .insideEscaped, word, c :: rest =>
    if c == '"' || c == '\\' then wordsFrom (.inside '"') (c :: word) rest
    else wordsFrom (.inside '"') (c :: '\\' :: word) rest

/-- The words of a line. -/
def words (line : String) : Except WordError (List String) :=
  (wordsFrom .gap [] line.toList).map (·.map String.ofList)

end Scrawl.Text
