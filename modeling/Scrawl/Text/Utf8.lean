import Scrawl.Text.Quoted
/-!
# Scrawl.Text.Utf8 — texts as bytes

Writing a text takes one to four bytes a character.  Reading goes byte by byte: a first byte says
how many more the character takes and how far the next one may range, and the bytes that are refused
are those of the character at fault, as far as they were in order.
-/

namespace Scrawl.Text.Utf8

/-- The bytes of a text. -/
def encode (s : String) : List UInt8 := s.toList.flatMap String.utf8EncodeChar

/-- What is wrong with bytes that are no text. -/
inductive Reason
  | start
  | continuation
  | ended
  deriving DecidableEq

/-- The wording of the reason. -/
def Reason.message : Reason → String
  | start => "invalid start byte"
  | continuation => "invalid continuation byte"
  | ended => "unexpected end of data"

/-- Why bytes are no text. -/
structure Fault where
  /-- Where the character at fault starts. -/
  position : Nat
  first : UInt8
  /-- How many bytes are at fault. -/
  count : Nat
  reason : Reason
  deriving DecidableEq

/-- The wording of the fault. -/
def Fault.message (f : Fault) : String :=
  "'utf-8' codec can't decode " ++
    (if f.count == 1 then
      "byte 0x" ++ String.ofList (hex 2 f.first.toNat) ++ " in position " ++ toString f.position
    else
      "bytes in position " ++ toString f.position ++ "-" ++ toString (f.position + f.count - 1)) ++
    ": " ++ f.reason.message

/-- A character of which bytes are still missing. -/
structure Begun where
  first : UInt8
  /-- The bytes read so far. -/
  count : Nat := 1
  /-- The bytes after the next one. -/
  after : Nat
  /-- The least and the greatest next byte. -/
  low : UInt8 := 0x80
  high : UInt8 := 0xBF
  /-- The bits read so far. -/
  value : Nat

/-- How a character starts. -/
inductive Start
  | whole (c : Char)
  | begun (b : Begun)
  | refused

/-- Reads a first byte. -/
def start (b : UInt8) : Start :=
  let n := b.toNat
  if b ≤ 0x7F then .whole (Char.ofNat n)
  else if b < 0xC2 then .refused
  else if b ≤ 0xDF then .begun { first := b, after := 0, value := n - 0xC0 }
  else if b == 0xE0 then .begun { first := b, after := 1, low := 0xA0, value := 0 }
  else if b == 0xED then .begun { first := b, after := 1, high := 0x9F, value := n - 0xE0 }
  else if b ≤ 0xEF then .begun { first := b, after := 1, value := n - 0xE0 }
  else if b == 0xF0 then .begun { first := b, after := 2, low := 0x90, value := 0 }
  else if b ≤ 0xF3 then .begun { first := b, after := 2, value := n - 0xF0 }
  else if b == 0xF4 then .begun { first := b, after := 2, high := 0x8F, value := n - 0xF0 }
  else .refused

/-- The bits of a begun character with a next byte. -/
def Begun.valueWith (o : Begun) (b : UInt8) : Nat := o.value * 64 + (b.toNat - 0x80)

/-- Reads the bytes from a position on; `done` holds the characters read, last first, and `begun`
the one that is open. -/
def decodeFrom (done : List Char) (position : Nat) :
    Option Begun → List UInt8 → Except Fault (List Char)
  | none, [] => .ok done.reverse
  | some o, [] => .error ⟨position - o.count, o.first, o.count, .ended⟩
  | none, b :: rest =>
    match start b with
    | .whole c => decodeFrom (c :: done) (position + 1) none rest
    | .begun o => decodeFrom done (position + 1) (some o) rest
    | .refused => .error ⟨position, b, 1, .start⟩
  | some o, b :: rest =>
    if o.low ≤ b && b ≤ o.high then
      match o.after with
      | 0 => decodeFrom (Char.ofNat (o.valueWith b) :: done) (position + 1) none rest
      | n + 1 =>
        let next := { first := o.first, count := o.count + 1, after := n, value := o.valueWith b }
        decodeFrom done (position + 1) (some next) rest
    else .error ⟨position - o.count, o.first, o.count, .continuation⟩

/-- The text of bytes. -/
def decode (bytes : List UInt8) : Except Fault String :=
  (decodeFrom [] 0 none bytes).map String.ofList

end Scrawl.Text.Utf8
