import Scrawl.Description.Token
import Scrawl.Graph
import Scrawl.Text.Quoted
/-!
# Scrawl.Description.Fault — what can be wrong with a description

A fault has a cause, and a place unless the whole description is too large.  Its wording names the
cause, then the text found at the place, then the place.
-/

namespace Scrawl.Description

/-- The most nodes of a description. -/
def maxNodes : Nat := 2000

/-- The most edges of a description. -/
def maxEdges : Nat := 8000

/-- What a graph attribute with a meaning sets. -/
inductive Gap
  | nodes
  | ranks
  deriving DecidableEq, Repr

/-- The name of the attribute. -/
def Gap.name : Gap → String
  | nodes => "nodesep"
  | ranks => "ranksep"

/-- Why a description is refused. -/
inductive Cause
  /-- No token starts here. -/
  | strayCharacter
  | undirectedGraph
  | noDigraph
  /-- Another token stands where the mark has to be. -/
  | expectedMark (m : Mark)
  | trailingContent
  | unterminatedBlock
  | expectedSemicolon
  | unsupportedStatement (text : String)
  | expectedStatement
  | expectedTarget
  | expectedName
  | expectedValue
  | expectedValueOf (key : String)
  | expectedSeparator
  | undirectedEdge
  | invalidDirection (value : String)
  | invalidGap (gap : Gap) (value : String)
  | tooLarge (nodes edges : Nat)
  deriving DecidableEq, Repr

/-- The wording of the cause. -/
def Cause.message : Cause → String
  | strayCharacter => "unexpected character"
  | undirectedGraph => "undirected graphs are not supported; use digraph"
  | noDigraph => "expected \"digraph\""
  | expectedMark m => "expected \"" ++ m.char.toString ++ "\""
  | trailingContent => "unexpected content after graph block"
  | unterminatedBlock => "unterminated graph block, expected \"\x7d\""
  | expectedSemicolon => "expected \";\" after statement"
  | unsupportedStatement text => "unsupported statement \"" ++ text ++ "\""
  | expectedStatement => "expected a node id or attribute statement"
  | expectedTarget => "expected edge target node id"
  | expectedName => "expected attribute name"
  | expectedValue => "expected attribute value"
  | expectedValueOf key => "expected value for attribute \"" ++ key ++ "\""
  | expectedSeparator => "expected \",\" or \"]\" in attribute list"
  | undirectedEdge => "undirected edge \"--\" is not supported; use \"->\""
  | invalidDirection value =>
    "invalid rankdir \"" ++ value ++ "\" (expected one of " ++
      ", ".intercalate (Direction.all.map (·.name)) ++ ")"
  | invalidGap gap value => "invalid " ++ gap.name ++ " \"" ++ value ++ "\""
  | tooLarge nodes edges =>
    "graph exceeds configured limits: nodes=" ++ toString nodes ++ " (max " ++ toString maxNodes ++
      "), edges=" ++ toString edges ++ " (max " ++ toString maxEdges ++ ")"

/-- A refusal: its cause, the text found and where that text stands. -/
structure Fault where
  cause : Cause
  fragment : String := ""
  position : Option Position := none
  deriving DecidableEq, Repr

/-- The wording of a refusal. -/
def Fault.message (f : Fault) : String :=
  f.cause.message ++
    (if f.fragment.isEmpty then "" else " near " ++ Text.quoted f.fragment) ++
    match f.position with
    | some p => " at line " ++ toString p.line ++ ", column " ++ toString p.column
    | none => ""

end Scrawl.Description
