import Scrawl.Text.Printable
/-!
# Scrawl.Text.Quoted — a text between quotes, as messages show it

The quote is the apostrophe unless the text holds an apostrophe and no double quote.  Backslash, the
chosen quote, line feed, carriage return and tab are escaped by a backslash; every other character
that is not printable is written by its code point in two, four or eight hexadecimal digits.
-/

namespace Scrawl.Text

/-- The lower-case hexadecimal digits of `n`, most significant first, padded to `width`. -/
def hex (width n : Nat) : List Char :=
  let digits := Nat.toDigits 16 n
  List.replicate (width - digits.length) '0' ++ digits

/-- The quote around a text. -/
def quoteMark (cs : List Char) : Char :=
  if cs.contains '\'' && !cs.contains '"' then '"' else '\''

/-- One character inside quotes. -/
def quoteChar (mark c : Char) : List Char :=
  if c == mark || c == '\\' then ['\\', c]
  else if c == '\n' then ['\\', 'n']
  else if c == '\r' then ['\\', 'r']
  else if c == '\t' then ['\\', 't']
  else if isPrintable c then [c]
  else if c.toNat < 0x100 then ['\\', 'x'] ++ hex 2 c.toNat
  else if c.toNat < 0x10000 then ['\\', 'u'] ++ hex 4 c.toNat
  else ['\\', 'U'] ++ hex 8 c.toNat

/-- The quoted form of a text. -/
def quoted (s : String) : String :=
  let mark := quoteMark s.toList
  String.ofList (mark :: s.toList.flatMap (quoteChar mark) ++ [mark])

end Scrawl.Text
