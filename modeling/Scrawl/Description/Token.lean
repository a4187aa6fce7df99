/-!
# Scrawl.Description.Token — the tokens of a description

A token is a lexeme with the text it was read from and the position of that text.  Ids, attribute
names and values are written as names, numbers or quoted strings; `Lexeme.id?` is what such a lexeme
stands for.
-/

namespace Scrawl.Description

/-- A place in a text: one-based line and column, counted in characters. -/
structure Position where
  line : Nat := 1
  column : Nat := 1
  deriving DecidableEq, Repr

namespace Position

/-- The place behind one more character. -/
def next (p : Position) (c : Char) : Position :=
  if c == '\n' then ⟨p.line + 1, 1⟩ else ⟨p.line, p.column + 1⟩

/-- The place behind a piece of text. -/
def advance (p : Position) (cs : List Char) : Position := cs.foldl next p

end Position

/-- The words with a meaning of their own, in any case. -/
inductive Keyword
  | strict
  | graph
  | digraph
  | node
  | edge
  | subgraph
  deriving DecidableEq, Repr

/-- The keyword that a name in lower case is. -/
def Keyword.ofName? : String → Option Keyword
  | "strict" => some strict
  | "graph" => some graph
  | "digraph" => some digraph
  | "node" => some node
  | "edge" => some edge
  | "subgraph" => some subgraph
  | _ => none

/-- The marks of one character. -/
inductive Mark
  | openBrace
  | closeBrace
  | openBracket
  | closeBracket
  | semicolon
  | comma
  | equals
  deriving DecidableEq, Repr

namespace Mark

/-- The character of a mark. -/
def char : Mark → Char
  | openBrace => '\x7b'
  | closeBrace => '\x7d'
  | openBracket => '['
  | closeBracket => ']'
  | semicolon => ';'
  | comma => ','
  | equals => '='

/-- All marks. -/
def all : List Mark :=
  [openBrace, closeBrace, openBracket, closeBracket, semicolon, comma, equals]

/-- The mark of a character. -/
def ofChar? (c : Char) : Option Mark := all.find? (·.char == c)

end Mark

/-- What a token is. -/
inductive Lexeme
  | name (text : String)
  | keyword (word : Keyword)
  | number (text : String)
  /-- A quoted string, by what it stands for. -/
  | quoted (value : String)
  | arrow
  | dashes
  | mark (m : Mark)
  deriving DecidableEq, Repr

/-- The id, attribute name or value that the lexeme stands for. -/
def Lexeme.id? : Lexeme → Option String
  | name text => some text
  | number text => some text
  | quoted value => some value
  | _ => none

/-- A lexeme with its text and place. -/
structure Token where
  lexeme : Lexeme
  raw : List Char
  position : Position
  deriving DecidableEq, Repr

namespace Token

/-- The id, attribute name or value that the token stands for. -/
def id? (t : Token) : Option String := t.lexeme.id?

/-- Whether the token is the mark. -/
def isMark (t : Token) (m : Mark) : Bool := t.lexeme == .mark m

end Token

end Scrawl.Description
