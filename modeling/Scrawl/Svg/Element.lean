/-!
# Scrawl.Svg.Element — markup and its text

An element holds text or other elements, never both, so that the line breaks and spaces which the
writer puts between elements cannot touch a text.  In text `&`, `<` and `>` are escaped, in
attribute values the double quote and the three line and tab characters as well.
-/

namespace Scrawl.Svg

/-- The attributes of an element, in order. -/
abbrev Attributes := List (String × String)

/-- An element of a drawing. -/
inductive Element
  /-- An element with text. -/
  | leaf (tag : String) (attributes : Attributes) (text : String)
  /-- An element with elements inside. -/
  | branch (tag : String) (attributes : Attributes) (children : List Element)

/-- A character of a text. -/
def escapeText (c : Char) : List Char :=
  match c with
  | '&' => "&amp;".toList
  | '<' => "&lt;".toList
  | '>' => "&gt;".toList
  | c => [c]

/-- A character of an attribute value. -/
def escapeValue (c : Char) : List Char :=
  match c with
  | '"' => "&quot;".toList
  | '\r' => "&#13;".toList
  | '\n' => "&#10;".toList
  | '\t' => "&#09;".toList
  | c => escapeText c

namespace Element

/-- The tag of an element. -/
def tag : Element → String
  | leaf tag _ _ => tag
  | branch tag _ _ => tag

/-- The attributes of an element. -/
def attributes : Element → Attributes
  | leaf _ attributes _ => attributes
  | branch _ attributes _ => attributes

/-- The value of an attribute. -/
def attribute? (e : Element) (name : String) : Option String := e.attributes.lookup name

/-- The text of an element that holds text. -/
def text? : Element → Option String
  | leaf _ _ text => some text
  | branch _ _ _ => none

/-- The start of an element: its tag and attributes, without the closing bracket. -/
def opening (tag : String) (attributes : Attributes) : List Char :=
  '<' :: tag.toList ++ attributes.flatMap fun (name, value) =>
    ' ' :: name.toList ++ "=\"".toList ++ value.toList.flatMap escapeValue ++ ['"']

/-- The end of an element. -/
def closing (tag : String) : List Char := "</".toList ++ tag.toList ++ ['>']

/-- A line break and the indentation of a depth. -/
def newline (depth : Nat) : List Char := '\n' :: List.replicate (2 * depth) ' '

mutual

/-- The text of an element at a depth. -/
def chars (depth : Nat) : Element → List Char
  | leaf tag attributes text =>
    if text.isEmpty then opening tag attributes ++ " />".toList
    else opening tag attributes ++ '>' :: (text.toList.flatMap escapeText ++ closing tag)
  | branch tag attributes [] => opening tag attributes ++ " />".toList
  | branch tag attributes (c :: cs) =>
    opening tag attributes ++ '>' :: (childChars (depth + 1) (c :: cs) ++
      newline depth ++ closing tag)

/-- The texts of elements at a depth, each on a line of its own. -/
def childChars (depth : Nat) : List Element → List Char
  | [] => []
  | c :: cs => newline depth ++ chars depth c ++ childChars depth cs

end

/-- The text of a whole document. -/
def render (e : Element) : String := String.ofList (chars 0 e)

mutual

/-- The element and all elements in it, in the order in which they start. -/
def all : Element → List Element
  | leaf tag attributes text => [leaf tag attributes text]
  | branch tag attributes children => branch tag attributes children :: allOf children

/-- All elements in a list of elements. -/
def allOf : List Element → List Element
  | [] => []
  | c :: cs => all c ++ allOf cs

end

end Element

end Scrawl.Svg
