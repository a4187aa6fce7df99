import Scrawl.Decimal.Numeral
import Scrawl.Graph
import Scrawl.Graphviz.Dot
import Scrawl.Text.Lines
import Scrawl.Text.Words
/-!
# Scrawl.Graphviz.Plain — reading the plain output of dot

The output is a header with the size of the drawing, then a line for each node and edge up to a line
`stop`; each line is split as a shell splits words.  Lengths are in inches with `y` upwards; they
become pixels with `y` downwards.  Parallel edges take the routes of their ends in order.
-/

namespace Scrawl.Graphviz

open Scrawl.Text Scrawl.Decimal

/-- What a line of the output gives. -/
inductive LineKind
  | node
  | edge
  deriving DecidableEq

/-- The word that a line of the kind begins with. -/
def LineKind.name : LineKind → String
  | node => "node"
  | edge => "edge"

/-- What can be wrong with the output. -/
inductive PlainFault
  | missingHeader
  | malformedHeader
  | malformed (kind : LineKind)
  | truncatedPoints
  /-- A line cannot be split into words. -/
  | unreadable (error : WordError)
  | missingNode (id : String)
  | missingEdge (source target : String)
  | fewPoints
  deriving DecidableEq

/-- The wording of the fault. -/
def PlainFault.message : PlainFault → String
  | missingHeader => "unexpected Graphviz plain output: missing graph header"
  | malformedHeader => "unexpected Graphviz plain output: malformed graph header"
  | malformed kind => "unexpected Graphviz plain output: malformed " ++ kind.name ++ " line"
  | truncatedPoints => "unexpected Graphviz plain output: truncated edge points"
  | unreadable e => e.message
  | missingNode id => "Graphviz output missing node \"" ++ id ++ "\""
  | missingEdge s t => "Graphviz output missing edge \"" ++ s ++ "\" -> \"" ++ t ++ "\""
  | fewPoints => "unexpected Graphviz plain output: edge with fewer than two points"

/-- What the lines say: the centre of each node, and the routes by their ends. -/
structure Plain (α : Type) where
  /-- In the order of first mention. -/
  centers : List (String × Point α) := []
  /-- In the order of the lines. -/
  routes : List ((String × String) × List (Point α)) := []

variable {α : Type}

/-- The lines that are not blank, stripped. -/
def inkLines (text : String) : List String :=
  ((splitLines text).map strip).filter (!·.isEmpty)

/-- The items from `start` up to before `stop`; a negative `stop` counts from the end. -/
def slice {β : Type} (start : Nat) (stop : Int) (xs : List β) : List β :=
  let stop := if stop < 0 then stop + xs.length else stop
  (xs.take stop.toNat).drop start

/-- Sets the centre of a node, which keeps its place in the order. -/
def setCenter (id : String) (p : Point α) (centers : List (String × Point α)) :
    List (String × Point α) :=
  if centers.any (·.1 == id) then centers.map fun (k, q) => if k == id then (k, p) else (k, q)
  else centers ++ [(id, p)]

section Reading

variable [Sub α] [Mul α] [OfScientific α] [OfNumeral α]

/-- The point of two numerals, in a drawing of the given height. -/
def point? (height : α) (x y : String) : Option (Point α) := do
  let x ← readNumber? x
  let y ← readNumber? y
  return ⟨x * pixelsPerInch, (height - y) * pixelsPerInch⟩

/-- The points of numerals taken in pairs. -/
def points? (height : α) : List String → Option (List (Point α))
  | [] => some []
  | [_] => none
  | x :: y :: rest => do
    let p ← point? height x y
    return p :: (← points? height rest)

/-- Takes a line in; lines of other kinds say nothing. -/
def Plain.take (height : α) (plain : Plain α) (words : List String) :
    Except PlainFault (Plain α) :=
  match words with
  | "node" :: rest =>
    match rest with
    | id :: x :: y :: _ =>
      match point? height x y with
      | some p => .ok { plain with centers := setCenter id p plain.centers }
      | none => .error (.malformed .node)
    | _ => .error (.malformed .node)
  | "edge" :: rest =>
    match rest with
    | source :: target :: count :: _ =>
      match readInt? count with
      | none => .error (.malformed .edge)
      | some count =>
        let coordinates := slice 4 (4 + 2 * count) words
        if (coordinates.length : Int) < 2 * count then .error .truncatedPoints
        else
          match points? height coordinates with
          | some ps => .ok { plain with routes := plain.routes ++ [((source, target), ps)] }
          | none => .error (.malformed .edge)
    | _ => .error (.malformed .edge)
  | _ => .ok plain

/-- Takes lines in up to `stop`. -/
def Plain.takeLines (height : α) (plain : Plain α) : List String → Except PlainFault (Plain α)
  | [] => .ok plain
  | line :: rest =>
    if line == "stop" then .ok plain
    else
      match words line with
      | .error e => .error (.unreadable e)
      | .ok ws =>
        match plain.take height ws with
        | .error e => .error e
        | .ok plain => plain.takeLines height rest

/-- The height in a header. -/
def readHeader (line : String) : Except PlainFault α :=
  match words line with
  | .error e => .error (.unreadable e)
  | .ok ws =>
    match ws[3]?.bind readNumber? with
    | some h => .ok h
    | none => .error .malformedHeader

/-- What the output says. -/
def Plain.read (text : String) : Except PlainFault (Plain α) :=
  match inkLines text with
  | [] => .error .missingHeader
  | header :: rest =>
    if header.startsWith "graph " then do
      let height ← readHeader header
      Plain.takeLines height {} rest
    else .error .missingHeader

end Reading

/-- The centres of all nodes that the output names, and a route for every edge of a graph. -/
structure Placement (α : Type) where
  centers : List (String × Point α)
  routes : List (List (Point α))

/-- The routes of edges in order; each takes the first one left between its ends. -/
def assignRoutes (routes : List ((String × String) × List (Point α))) :
    List (Edge α) → Except PlainFault (List (List (Point α)))
  | [] => .ok []
  | e :: rest =>
    match routes.find? (·.1 == (e.source, e.target)) with
    | none => .error (.missingEdge e.source e.target)
    | some (_, points) =>
      if points.length < 2 then .error .fewPoints
      else do
        let left := routes.eraseP (·.1 == (e.source, e.target))
        return points :: (← assignRoutes left rest)

/-- What the output says about a graph, which it has to cover. -/
def placement [Sub α] [Mul α] [OfScientific α] [OfNumeral α] (g : Graph α) (text : String) :
    Except PlainFault (Placement α) := do
  let plain ← Plain.read text
  match g.nodes.find? fun v => !plain.centers.any (·.1 == v.id) with
  | some v => throw (.missingNode v.id)
  | none => return ⟨plain.centers, ← assignRoutes plain.routes g.edges⟩

end Scrawl.Graphviz
