import Scrawl.Decimal.Numeral
import Scrawl.Description.Statement
import Scrawl.Text.Case
/-!
# Scrawl.Description.Reader — from a description to its graph

Statements act on the graph in order.  Ids are created at their first mention; a node statement sets
the label it gives, and a node that is new takes the label of the node defaults in force, if there
is one.  Of the graph attributes `rankdir`, `nodesep` and `ranksep`, in any case, have a meaning.  A
refusal counts only if no statement before it is faulty, and the limits on the size only at the end.
-/

namespace Scrawl.Description

/-- The attributes as a map: each name once, in the order of its first mention, with its last
value. -/
def lastValues (attributes : Attributes) : Attributes :=
  attributes.foldl (fun done (key, value) =>
    if done.any (·.1 == key) then
      done.map fun (k, v) => if k == key then (k, value) else (k, v)
    else done ++ [(key, value)]) []

/-- The value that a name has at last. -/
def valueOf? (key : String) (attributes : Attributes) : Option String :=
  (attributes.reverse.find? (·.1 == key)).map (·.2)

/-- A gap as a description may set it: finite and not negative. -/
def readGap? (value : String) : Option Float :=
  match (Decimal.Numeral.read? value).map Decimal.Numeral.toBinary with
  | some (.finite negative mantissa exponent) =>
    if negative && mantissa != 0 then none
    else some (Decimal.Binary.finite negative mantissa exponent).toFloat
  | _ => none

/-- What has been built so far: the graph and the label of new nodes. -/
structure Draft where
  graph : Graph Float := Graph.empty
  defaultLabel : Option String := none

/-- Sets a graph attribute. -/
def setAttribute (g : Graph Float) (key value : String) : Except Cause (Graph Float) :=
  let setGap (gap : Gap) : Except Cause (Graph Float) :=
    match readGap? value, gap with
    | some x, .nodes => .ok { g with nodeGap := x }
    | some x, .ranks => .ok { g with rankGap := x }
    | none, _ => .error (.invalidGap gap value)
  match Text.lower key with
  | "rankdir" =>
    match Direction.ofName? (Text.upperAscii value) with
    | some d => .ok { g with direction := d }
    | none => .error (.invalidDirection value)
  | "nodesep" => setGap .nodes
  | "ranksep" => setGap .ranks
  | _ => .ok g

/-- The edges of a chain: one for each pair of neighbours. -/
def hops (first : String) (rest : List String) : List (String × String) :=
  (first :: rest).zip rest

/-- Lets a statement act; the cause and place of what is wrong with it. -/
def Draft.act (d : Draft) : Statement → Except (Cause × Token) Draft
  | .graphAttributes attributes place =>
    let changed :=
      (lastValues attributes).foldlM (fun g (key, value) => setAttribute g key value) d.graph
    match changed with
    | .ok g => .ok { d with graph := g }
    | .error cause => .error (cause, place)
  | .nodeDefaults attributes =>
    .ok { d with defaultLabel := (valueOf? "label" attributes).or d.defaultLabel }
  | .edgeDefaults _ => .ok d
  | .chain first rest =>
    let fresh := (first :: rest).filter (!d.graph.hasNode ·)
    let g := (hops first rest).foldl (fun g (s, t) => g.addEdge s t) d.graph
    let g := match d.defaultLabel with
      | some label => fresh.foldl (fun g id => g.updateNode id fun n => { n with label }) g
      | none => g
    .ok { d with graph := g }
  | .node id attributes =>
    let label := valueOf? "label" attributes
    let label := if d.graph.hasNode id then label else label.or d.defaultLabel
    .ok { d with graph := d.graph.addNode id label }

/-- The fault at a token, or at the end of the text. -/
def faultAt (cause : Cause) (finish : Position) : Option Token → Fault
  | some t => ⟨cause, String.ofList t.raw, some t.position⟩
  | none => ⟨cause, "<end of input>", some finish⟩

/-- Lets the statements act in order. -/
def actAll (finish : Position) (statements : List Statement) : Except Fault Draft :=
  statements.foldlM (fun d s =>
    match d.act s with
    | .ok d => .ok d
    | .error (cause, token) => .error (faultAt cause finish (some token))) {}

/-- The graph of a token list. -/
def ofTokens (s : Scan) : Except Fault (Graph Float) := do
  let script := readGraph s.tokens
  let draft ← actAll s.finish script.statements
  match script.refusal with
  | some r => throw (faultAt r.cause s.finish r.token)
  | none =>
    let g := { draft.graph with name := script.name }
    if maxNodes < g.nodes.length || maxEdges < g.edges.length then
      throw ⟨.tooLarge g.nodes.length g.edges.length, "", none⟩
    else return g

/-- Reads a description. -/
def read (text : String) : Except Fault (Graph Float) := do
  ofTokens (← scan text)

end Scrawl.Description
