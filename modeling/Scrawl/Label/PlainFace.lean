import Scrawl.Label.Surface
import Scrawl.Text.Lines
/-!
# Scrawl.Label.PlainFace — the font that is always there

The plain face has no outlines: a character is as wide as three eighths of the size and up to four
eighths more, by its code point.  Letters that hang below the line make a line box half a size
taller, a few marks reach above it, and `j` in front hangs out to the left.  The bell character
cannot be drawn.
-/

namespace Scrawl.Label

variable {α : Type} [Scalar α]

/-- The width of a character, in eighths of the font size. -/
def eighths (c : Char) : Nat := 3 + c.toNat % 5

/-- The width of a line of a text at a font size, in eighths. -/
def widthEighths (size : α) (cs : List Char) : α :=
  Scalar.ofNat ((cs.map eighths).foldl (· + ·) 0) * size

/-- The box of a line of a text at a font size. -/
def lineBox (size : α) (cs : List Char) : Box α :=
  match cs with
  | [] => ⟨0.0, 0.0, 0.0, 0.0⟩
  | first :: _ =>
    { left := if first == 'j' then -1.0 else 1.0
      top := if cs.any fun c => c == '|' || c == '\u00C5' then -2.0 else 2.0
      right := widthEighths size cs / 8.0
      bottom := if cs.any fun c => "gjpqy|".toList.contains c then 1.5 * size else size }

/-- The reply for a line. -/
def lineReply (size : α) (cs : List Char) : Reply α :=
  if cs.contains '\x07' then .failed ⟨.system, "stub: unmeasurable"⟩
  else if (Scalar.writeFault? (widthEighths size cs)).isSome then .outOfRange .whole
  else .box (lineBox size cs)

/-- The boxes of lines, or the first failure. -/
def lineReplies (size : α) : List (List Char) → Except (Reply α) (List (Box α))
  | [] => .ok []
  | cs :: rest =>
    match lineReply size cs with
    | .box b => (lineReplies size rest).map (b :: ·)
    | r => .error r

/-- The box of lines that stand below each other. -/
def blockBox (size spacing : α) (boxes : List (Box α)) : Box α :=
  match boxes with
  | [] => ⟨0.0, 0.0, 0.0, 0.0⟩
  | first :: rest =>
    { left := Scalar.least first.left (rest.map (·.left))
      top := first.top
      right := Scalar.largest first.right (rest.map (·.right))
      bottom := Scalar.ofNat rest.length * (1.25 * size + spacing) +
        ((first :: rest).getLastD first).bottom }

/-- The plain face of a size. -/
def plainFace (size : α) : Face α where
  lineHeight := size + size / 4.0
  reply
    | .line text => lineReply size text.toList
    | .block text spacing =>
      match lineReplies size (Text.splitOnChar '\n' text.toList) with
      | .ok boxes => .box (blockBox size spacing boxes)
      | .error r => r

end Scrawl.Label
