import Scrawl.Text.Quoted
/-!
# Scrawl.Text.Json — objects on one line

An object of plain values is written on one line in ASCII: a control character or one beyond ASCII
is escaped by its sixteen-bit units.
-/

namespace Scrawl.Text.Json

/-- A plain value. -/
inductive Value
  | null
  | bool (b : Bool)
  | int (n : Int)
  | string (s : String)
  deriving DecidableEq

/-- The escape of a sixteen-bit unit. -/
def unit (n : Nat) : List Char := '\\' :: 'u' :: hex 4 n

/-- One character inside a string. -/
def char (c : Char) : List Char :=
  match c with
  | '"' => ['\\', '"']
  | '\\' => ['\\', '\\']
  | '\n' => ['\\', 'n']
  | '\r' => ['\\', 'r']
  | '\t' => ['\\', 't']
  | '\x08' => ['\\', 'b']
  | '\x0c' => ['\\', 'f']
  | c =>
    let n := c.toNat
    if 0x20 ≤ n && n ≤ 0x7E then [c]
    else if n < 0x10000 then unit n
    else unit (0xD800 + (n - 0x10000) / 0x400) ++ unit (0xDC00 + (n - 0x10000) % 0x400)

/-- The string of a text. -/
def string (s : String) : String := String.ofList ('"' :: (s.toList.flatMap char ++ ['"']))

/-- The text of a value. -/
def Value.print : Value → String
  | null => "null"
  | bool b => if b then "true" else "false"
  | int n => toString n
  | string s => Json.string s

/-- The text of an object. -/
def object (fields : List (String × Value)) : String :=
  "\x7b" ++ ", ".intercalate (fields.map fun f => string f.1 ++ ": " ++ f.2.print) ++ "\x7d"

end Scrawl.Text.Json
