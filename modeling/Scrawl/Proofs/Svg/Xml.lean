import Scrawl.Text.Blank
import Scrawl.Text.Lines

/-!
# Scrawl.Proofs.Svg.Xml — reading a document

A reader of XML 1.0 for documents that are one element: tags with attributes, text with references,
comments and sections of character data.  A document that declares or instructs is refused.

Line ends are unified first, and all characters have to be ones that a document may have.  The text
is cut into tokens, from which the elements are built on a stack of those that are open.

* `token?_length_lt`: a token is not empty, so a document is a list of tokens.
* `read`: the root of a document.
* `Node.pruned`: a node without the white space between elements.
* `Node.named`, `Node.attribute?`, `Node.content`: what a reader looks for in a document.
* `Node.skeleton`: the elements of a document and the names of their attributes, and nothing else.
-/

namespace Scrawl.Xml

open Text

/-! ### Characters and names -/

/-- Whether a document may have the character. -/
def isChar (c : Char) : Bool :=
  let n := c.toNat
  n == 0x9 || n == 0xA || n == 0xD || (0x20 ≤ n && n ≤ 0xD7FF) || (0xE000 ≤ n && n ≤ 0xFFFD) ||
    (0x10000 ≤ n && n ≤ 0x10FFFF)

/-- All characters are ones that a document may have. -/
def Legal (s : String) : Prop := ∀ c ∈ s.toList, isChar c

instance (s : String) : Decidable (Legal s) :=
  decidable_of_iff (s.toList.all isChar) (by simp [Legal])

/-- White space. -/
def isSpace (c : Char) : Bool := c == ' ' || c == '\t' || c == '\r' || c == '\n'

/-- The characters that a name may begin with, by their first and last code points. -/
def nameStarts : List (Nat × Nat) :=
  [(0x3A, 0x3A), (0x41, 0x5A), (0x5F, 0x5F), (0x61, 0x7A), (0xC0, 0xD6), (0xD8, 0xF6),
   (0xF8, 0x2FF), (0x370, 0x37D), (0x37F, 0x1FFF), (0x200C, 0x200D), (0x2070, 0x218F),
   (0x2C00, 0x2FEF), (0x3001, 0xD7FF), (0xF900, 0xFDCF), (0xFDF0, 0xFFFD), (0x10000, 0xEFFFF)]

/-- The characters that a name may have besides those. -/
def nameRests : List (Nat × Nat) :=
  [(0x2D, 0x2E), (0x30, 0x39), (0xB7, 0xB7), (0x300, 0x36F), (0x203F, 0x2040)]

/-- Whether the character is in one of the ranges. -/
def inRanges (ranges : List (Nat × Nat)) (c : Char) : Bool :=
  ranges.any fun (first, last) => first ≤ c.toNat && c.toNat ≤ last

/-- Whether a name may begin with the character. -/
def isNameStart (c : Char) : Bool := inRanges nameStarts c

/-- Whether a name may have the character. -/
def isNameChar (c : Char) : Bool := isNameStart c || inRanges nameRests c

/-- The name that a text begins with, and what is behind it. -/
def name? : List Char → Option (String × List Char)
  | [] => none
  | c :: cs =>
    if isNameStart c then
      some (String.ofList (c :: cs.takeWhile isNameChar), cs.dropWhile isNameChar)
    else none

/-! ### References -/

/-- The entities that every document has. -/
def entities : List (List Char × Char) :=
  [("amp".toList, '&'), ("lt".toList, '<'), ("gt".toList, '>'), ("apos".toList, '\''),
   ("quot".toList, '"')]

/-- The value of a digit. -/
def digit? (c : Char) : Option Nat :=
  if '0' ≤ c ∧ c ≤ '9' then some (c.toNat - 0x30)
  else if 'a' ≤ c ∧ c ≤ 'f' then some (c.toNat - 0x57)
  else if 'A' ≤ c ∧ c ≤ 'F' then some (c.toNat - 0x37)
  else none

/-- The number of digits to a base; there has to be one. -/
def number? (base : Nat) (digits : List Char) : Option Nat :=
  if digits.isEmpty then none
  else digits.foldlM (fun n c => (digit? c).bind fun d =>
    if d < base then some (base * n + d) else none) 0

/-- The character of a number, if a document may have it. -/
def char? (n : Nat) : Option Char :=
  if n.isValidChar ∧ isChar (Char.ofNat n) then some (Char.ofNat n) else none

/-- The character that a reference stands for. -/
def referred? : List Char → Option Char
  | '#' :: 'x' :: digits => (number? 16 digits).bind char?
  | '#' :: digits => (number? 10 digits).bind char?
  | name => entities.lookup name

/-- Replaces the references in a text, and every other character by what `plain` makes of it.  Within
a reference, `pending` has what is read of it, last character first. -/
def expand (plain : Char → Option Char) (pending : Option (List Char)) :
    List Char → Option (List Char)
  | [] => if pending.isSome then none else some []
  | c :: cs =>
    match pending with
    | none =>
      if c == '&' then expand plain (some []) cs
      else do return (← plain c) :: (← expand plain none cs)
    | some name =>
      if c == ';' then do return (← referred? name.reverse) :: (← expand plain none cs)
      else expand plain (some (c :: name)) cs

/-! ### Tokens -/

/-- What a tag says. -/
structure Tag where
  name : String
  attributes : List (String × String)

/-- A piece of a document. -/
inductive Token
  | text (chars : String)
  | opening (tag : Tag)
  | closing (name : String)
  /-- The tag of an element with nothing inside. -/
  | empty (tag : Tag)
  /-- A comment. -/
  | aside

/-- What is before a mark and behind it, at its first place. -/
def cutAt? (mark : List Char) : List Char → Option (List Char × List Char)
  | [] => none
  | c :: cs =>
    if mark.isPrefixOf (c :: cs) then some ([], (c :: cs).drop mark.length)
    else (cutAt? mark cs).map fun (before, behind) => (c :: before, behind)

/-- What is behind a mark, which may stand behind white space. -/
def behind? (mark : Char) (cs : List Char) : Option (List Char) :=
  match cs.dropWhile isSpace with
  | [] => none
  | c :: rest => if c == mark then some rest else none

/-- What is between quotation marks, and what is behind them. -/
def quoted? (cs : List Char) : Option (List Char × List Char) :=
  match cs.dropWhile isSpace with
  | [] => none
  | c :: rest => if c == '"' || c == '\'' then cutAt? [c] rest else none

/-- A character of an attribute value: white space is a space. -/
def valueChar? (c : Char) : Option Char :=
  if c == '<' then none else some (if isSpace c then ' ' else c)

/-- An attribute, which stands behind white space. -/
def attribute? (cs : List Char) : Option ((String × String) × List Char) := do
  if cs.head?.any isSpace then
    let (name, rest) ← name? (cs.dropWhile isSpace)
    let (raw, rest) ← quoted? (← behind? '=' rest)
    return ((name, String.ofList (← expand valueChar? none raw)), rest)
  else none

/-- A text up to a tag; it does not have the end of a section. -/
def text? (cs : List Char) : Option (Token × List Char) := do
  let raw := cs.takeWhile (· != '<')
  if (cutAt? "]]>".toList raw).isSome then none
  else return (.text (String.ofList (← expand some none raw)), cs.dropWhile (· != '<'))

/-- A comment or a section of character data, behind its first two characters. -/
def section? (cs : List Char) : Option (Token × List Char) :=
  match cs with
  | '-' :: '-' :: cs => do
    let (_, rest) ← cutAt? "--".toList cs
    match rest with
    | '>' :: rest => return (.aside, rest)
    | _ => none
  | '[' :: 'C' :: 'D' :: 'A' :: 'T' :: 'A' :: '[' :: cs => do
    let (raw, rest) ← cutAt? "]]>".toList cs
    return (.text (String.ofList raw), rest)
  | _ => none

/-- A closing tag behind its first two characters. -/
def closing? (cs : List Char) : Option (Token × List Char) := do
  let (name, rest) ← name? cs
  return (.closing name, ← behind? '>' rest)

section Lengths

variable {c : Char} {cs rest : List Char}

theorem dropWhile_length_le (p : Char → Bool) (cs : List Char) :
    (cs.dropWhile p).length ≤ cs.length :=
  (List.dropWhile_suffix p).length_le

theorem name?_length_lt {name : String} (h : name? cs = some (name, rest)) :
    rest.length < cs.length := by
  cases cs with
  | nil => cases h
  | cons c cs =>
    simp only [name?] at h
    split at h
    · cases h
      have := dropWhile_length_le isNameChar cs
      rw [List.length_cons]
      omega
    · cases h

theorem cutAt?_length {mark before behind : List Char} (h : cutAt? mark cs = some (before, behind)) :
    behind.length ≤ cs.length := by
  induction cs generalizing before with
  | nil => cases h
  | cons c cs ih =>
    simp only [cutAt?] at h
    split at h
    · cases h
      rw [List.length_drop]
      omega
    · obtain ⟨⟨b, a⟩, hcut, hpair⟩ := Option.map_eq_some_iff.mp h
      cases hpair
      have := ih hcut
      rw [List.length_cons]
      omega

theorem behind?_length_lt (h : behind? c cs = some rest) : rest.length < cs.length := by
  have hdrop := dropWhile_length_le isSpace cs
  unfold behind? at h
  split at h
  · cases h
  · next hcons =>
    rw [hcons, List.length_cons] at hdrop
    split at h
    · cases h
      omega
    · cases h

theorem quoted?_length {raw : List Char} (h : quoted? cs = some (raw, rest)) :
    rest.length ≤ cs.length := by
  have hdrop := dropWhile_length_le isSpace cs
  unfold quoted? at h
  split at h
  · cases h
  · next hcons =>
    rw [hcons, List.length_cons] at hdrop
    split at h
    · have := cutAt?_length h
      omega
    · cases h

theorem attribute?_length_lt {a : String × String} (h : attribute? cs = some (a, rest)) :
    rest.length < cs.length := by
  unfold attribute? at h
  split at h
  · obtain ⟨⟨name, rest₁⟩, hname, h⟩ := Option.bind_eq_some_iff.mp h
    obtain ⟨rest₂, hmark, h⟩ := Option.bind_eq_some_iff.mp h
    obtain ⟨⟨raw, rest₃⟩, hquoted, h⟩ := Option.bind_eq_some_iff.mp h
    obtain ⟨value, -, h⟩ := Option.bind_eq_some_iff.mp h
    cases h
    have hspace := dropWhile_length_le isSpace cs
    have hname := name?_length_lt hname
    have hmark := behind?_length_lt hmark
    have hquoted := quoted?_length hquoted
    omega
  · cases h

end Lengths

/-- The attributes that a text begins with, and what is behind them. -/
def attributesFrom (cs : List Char) : List (String × String) × List Char :=
  match _h : attribute? cs with
  | none => ([], cs)
  | some (a, rest) =>
    let (more, rest) := attributesFrom rest
    (a :: more, rest)
termination_by cs.length
decreasing_by exact attribute?_length_lt _h

/-- An opening tag or one of an empty element, behind its first character. -/
def opening? (cs : List Char) : Option (Token × List Char) := do
  let (name, rest) ← name? cs
  let (attributes, rest) := attributesFrom rest
  if (attributes.map (·.1)).Nodup then
    match rest.dropWhile isSpace with
    | '>' :: rest => return (.opening ⟨name, attributes⟩, rest)
    | '/' :: '>' :: rest => return (.empty ⟨name, attributes⟩, rest)
    | _ => none
  else none

/-- A token that begins with `<`, behind it. -/
def markup? : List Char → Option (Token × List Char)
  | [] => none
  | c :: cs =>
    if c == '/' then closing? cs else if c == '!' then section? cs else opening? (c :: cs)

/-- The token that a text begins with, and what is behind it. -/
def token? : List Char → Option (Token × List Char)
  | [] => none
  | c :: cs => if c == '<' then markup? cs else text? (c :: cs)

section Lengths

variable {cs rest : List Char} {t : Token}

theorem attributesFrom_length (cs : List Char) : (attributesFrom cs).2.length ≤ cs.length := by
  fun_induction attributesFrom cs with
  | case1 cs h => exact Nat.le_refl _
  | case2 cs a rest h more rest' hrest ih =>
    have := attribute?_length_lt h
    rw [hrest] at ih
    dsimp only at ih ⊢
    omega

theorem closing?_length_lt (h : closing? cs = some (t, rest)) : rest.length < cs.length := by
  obtain ⟨⟨name, rest₁⟩, hname, h⟩ := Option.bind_eq_some_iff.mp h
  obtain ⟨rest₂, hmark, h⟩ := Option.bind_eq_some_iff.mp h
  cases h
  exact Nat.lt_trans (behind?_length_lt hmark) (name?_length_lt hname)

theorem section?_length (h : section? cs = some (t, rest)) : rest.length ≤ cs.length := by
  unfold section? at h
  split at h
  · obtain ⟨⟨before, rest₁⟩, hcut, h⟩ := Option.bind_eq_some_iff.mp h
    have := cutAt?_length hcut
    dsimp only at h
    split at h
    · cases h
      simp only [List.length_cons] at this ⊢
      omega
    · cases h
  · obtain ⟨⟨raw, rest₁⟩, hcut, h⟩ := Option.bind_eq_some_iff.mp h
    have := cutAt?_length hcut
    cases h
    simp only [List.length_cons]
    omega
  · cases h

theorem opening?_length_lt (h : opening? cs = some (t, rest)) : rest.length < cs.length := by
  obtain ⟨⟨name, rest₁⟩, hname, h⟩ := Option.bind_eq_some_iff.mp h
  have hname := name?_length_lt hname
  have hattributes := attributesFrom_length rest₁
  have hspace := dropWhile_length_le isSpace (attributesFrom rest₁).2
  dsimp only at h
  split at h
  · split at h
    · next hend =>
      cases h
      rw [hend, List.length_cons] at hspace
      omega
    · next hend =>
      cases h
      rw [hend, List.length_cons, List.length_cons] at hspace
      omega
    · cases h
  · cases h

theorem text?_length_lt {c : Char} (hc : c ≠ '<') (h : text? (c :: cs) = some (t, rest)) :
    rest.length < (c :: cs).length := by
  unfold text? at h
  dsimp only at h
  split at h
  · cases h
  · obtain ⟨chars, -, h⟩ := Option.bind_eq_some_iff.mp h
    cases h
    rw [List.dropWhile_cons_of_pos (by simpa using hc), List.length_cons]
    have := dropWhile_length_le (· != '<') cs
    omega

theorem markup?_length (h : markup? cs = some (t, rest)) : rest.length ≤ cs.length := by
  cases cs with
  | nil => cases h
  | cons c cs =>
    rw [markup?] at h
    split at h
    · have := closing?_length_lt h
      rw [List.length_cons]
      omega
    · split at h
      · have := section?_length h
        rw [List.length_cons]
        omega
      · exact Nat.le_of_lt (opening?_length_lt h)

/-- **A token is not empty.** -/
theorem token?_length_lt (h : token? cs = some (t, rest)) : rest.length < cs.length := by
  cases cs with
  | nil => cases h
  | cons c cs =>
    rw [token?] at h
    split at h
    · exact Nat.lt_succ_of_le (markup?_length h)
    · next hc => exact text?_length_lt (by simpa using hc) h

end Lengths

/-- The tokens of a text. -/
def tokens (cs : List Char) : Option (List Token) :=
  match cs with
  | [] => some []
  | c :: cs =>
    match _h : token? (c :: cs) with
    | none => none
    | some (t, rest) => (tokens rest).map (t :: ·)
termination_by cs.length
decreasing_by exact token?_length_lt _h

/-! ### Elements -/

/-- A text, or an element with what is inside. -/
inductive Node
  | text (chars : String)
  | element (tag : Tag) (children : List Node)

/-- An element that is not closed yet. -/
structure Frame where
  tag : Tag
  /-- What has been read inside, last first. -/
  children : List Node

namespace Frame

/-- Something more is inside. -/
def add (f : Frame) (n : Node) : Frame := { f with children := n :: f.children }

/-- The element when it is closed. -/
def node (f : Frame) : Node := .element f.tag f.children.reverse

end Frame

/-- Takes a token in.  The frames are the open elements, innermost first, and below them that of the
whole document. -/
def take (frames : List Frame) (t : Token) : Option (List Frame) :=
  match frames, t with
  | frames, .opening tag => some (⟨tag, []⟩ :: frames)
  | frames, .aside => some frames
  | f :: frames, .empty tag => some (f.add (.element tag []) :: frames)
  | f :: frames, .text chars => some (f.add (.text chars) :: frames)
  | f :: outer :: frames, .closing name =>
    if f.tag.name == name then some (outer.add f.node :: frames) else none
  | _, _ => none

/-- The frame of a whole document. -/
def documentFrame : Frame := ⟨⟨"", []⟩, []⟩

/-- The element that a document consists of. -/
def root? : List Frame → Option Node
  | [⟨_, [.element tag children]⟩] => some (.element tag children)
  | _ => none

/-- Reads a document: its root, if it is well-formed. -/
def read (document : String) : Option Node := do
  let cs := unifyNewlines document.toList
  if cs.all isChar then
    let ts ← tokens (stripChars isSpace cs)
    root? (← ts.foldlM take [documentFrame])
  else none

/-! ### White space between elements -/

namespace Node

/-- Whether the node is an element. -/
def isElement : Node → Bool
  | text _ => false
  | element _ _ => true

/-- Whether the node is white space. -/
def isGap : Node → Bool
  | text chars => chars.toList.all isSpace
  | element _ _ => false

/-- Nodes without the white space between elements; where there is no element, all of it is text. -/
def closeGaps (nodes : List Node) : List Node :=
  if nodes.any isElement then nodes.filter (!·.isGap) else nodes

mutual

/-- The node without the white space between elements. -/
def pruned : Node → Node
  | text chars => text chars
  | element tag children => element tag (closeGaps (prunedOf children))

/-- All nodes without the white space between elements. -/
def prunedOf : List Node → List Node
  | [] => []
  | n :: ns => pruned n :: prunedOf ns

end

/-! ### Looking into a document -/

/-- What is inside an element. -/
def children : Node → List Node
  | text _ => []
  | element _ children => children

/-- Whether the node is an element of the name. -/
def hasName (name : String) : Node → Bool
  | text _ => false
  | element tag _ => tag.name == name

/-- The value of an attribute. -/
def attribute? (name : String) : Node → Option String
  | text _ => none
  | element tag _ => tag.attributes.lookup name

mutual

/-- The element and all elements in it, in the order of the document. -/
def elements : Node → List Node
  | text _ => []
  | element tag children => element tag children :: elementsOf children

/-- All elements in nodes. -/
def elementsOf : List Node → List Node
  | [] => []
  | n :: ns => elements n ++ elementsOf ns

end

/-- The elements of a name. -/
def named (name : String) (n : Node) : List Node := n.elements.filter (·.hasName name)

mutual

/-- All text in a node. -/
def content : Node → String
  | text chars => chars
  | element _ children => contentOf children

/-- All text in nodes. -/
def contentOf : List Node → String
  | [] => ""
  | n :: ns => content n ++ contentOf ns

end

mutual

/-- The node without its texts and the values of attributes. -/
def skeleton : Node → Node
  | text _ => text ""
  | element tag children =>
    element ⟨tag.name, tag.attributes.map fun a => (a.1, "")⟩ (skeletonOf children)

/-- The elements among nodes, without their texts and the values of attributes. -/
def skeletonOf : List Node → List Node
  | [] => []
  | text _ :: ns => skeletonOf ns
  | element tag children :: ns => skeleton (element tag children) :: skeletonOf ns

end

end Node

end Scrawl.Xml
