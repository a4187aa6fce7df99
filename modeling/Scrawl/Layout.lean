import Scrawl.Graphviz.Plain
import Scrawl.Layered.Layout
import Scrawl.Text.Quoted
/-!
# Scrawl.Layout — choosing an engine and laying a graph out

A graph needs the size of every node.  The builtin engine is the layered layout; Graphviz gives
centres and routes through its dot program, which may not be installed.  A layout that fails says
why and what it left of the graph.
-/

namespace Scrawl

/-- Who computes positions. -/
inductive Engine
  /-- Graphviz where it is installed, else the builtin engine. -/
  | auto
  | builtin
  | graphviz
  deriving DecidableEq

namespace Engine

/-- The engines, in the order in which messages list them. -/
def all : List Engine := [auto, builtin, graphviz]

/-- The name of an engine. -/
def name : Engine → String
  | auto => "auto"
  | builtin => "builtin"
  | graphviz => "graphviz"

/-- The engine of a name. -/
def ofName? (s : String) : Option Engine := all.find? (·.name == s)

end Engine

/-- How a run of the dot program ends. -/
inductive DotRun
  | timedOut
  /-- The program could not be run. -/
  | notRun (reason : String)
  | finished (code : Int) (stdout stderr : String)

/-- Why Graphviz did not lay a graph out. -/
inductive EngineFault
  | notInstalled
  | timedOut
  | notRun (reason : String)
  /-- The program refused, with what it said. -/
  | refused (detail : String)
  | plain (fault : Graphviz.PlainFault)
  deriving DecidableEq

/-- The wording of the fault. -/
def EngineFault.message : EngineFault → String
  | notInstalled => "layout engine \"graphviz\" requires the Graphviz \"dot\" executable"
  | timedOut => "graph layout timed out"
  | notRun reason => "failed to execute Graphviz: " ++ reason
  | refused detail => "Graphviz failed: " ++ if detail.isEmpty then "unknown error" else detail
  | plain fault => fault.message

/-- Why a graph was not laid out. -/
inductive LayoutFault
  | geometry (fault : GeometryFault)
  | unknownEngine (name : String)
  | engine (fault : EngineFault)
  /-- An edge, or the output of Graphviz, names a node that the graph does not have. -/
  | unknownNode (id : String)
  deriving DecidableEq

/-- The wording of the fault. -/
def LayoutFault.message : LayoutFault → String
  | geometry fault => fault.message
  | unknownEngine name => "unknown layout engine \"" ++ name ++ "\""
  | engine fault => fault.message
  | unknownNode id => Text.quoted id

/-- The outcome of a layout: the graph as it is left, what dot was given if it was run, and the size
or the fault. -/
structure LayoutOutcome (α : Type) where
  graph : Graph α
  dotInput : Option String := none
  result : Except LayoutFault (α × α)

namespace Layout

/-- The most characters of an error output that a message shows. -/
def detailLimit : Nat := 240

/-- An error output as a message shows it. -/
def detailOf (stderr : String) : String :=
  let detail := Text.strip stderr
  if detailLimit < detail.length then String.ofList (detail.toList.take detailLimit) ++ "..."
  else detail

variable {α : Type}

/-- Sets the centres in order, as far as the graph has the nodes, and the id of the first it has
not. -/
def setCenters (g : Graph α) : List (String × Point α) → Graph α × Option String
  | [] => (g, none)
  | (id, p) :: rest =>
    if g.hasNode id then
      setCenters (g.updateNode id fun v => { v with x := some p.x, y := some p.y }) rest
    else (g, some id)

/-- Gives the edges their routes in order. -/
def setRoutes (g : Graph α) (routes : List (List (Point α))) : Graph α :=
  { g with edges := g.edges.zipWith (fun e points => { e with points }) routes }

variable [Scalar α]

/-- The layered layout. -/
def builtin (g : Graph α) : LayoutOutcome α :=
  match Layered.layout g with
  | .ok (laidOut, size) => ⟨laidOut, none, .ok size⟩
  | .error id => ⟨g, none, .error (.unknownNode id)⟩

variable [Decimal.OfNumeral α]

/-- The placement that a run of dot gives. -/
def placementOf (g : Graph α) : DotRun → Except EngineFault (Graphviz.Placement α)
  | .timedOut => .error .timedOut
  | .notRun reason => .error (.notRun reason)
  | .finished code stdout stderr =>
    if code != 0 then .error (.refused (detailOf stderr))
    else (Graphviz.placement g stdout).mapError .plain

variable [Decimal.ToFixed α]

/-- The layout that dot gives. -/
def viaDot (g : Graph α) (dot : String → DotRun) : LayoutOutcome α :=
  let input := Graphviz.source g
  match placementOf g (dot input) with
  | .error fault => ⟨g, some input, .error (.engine fault)⟩
  | .ok placement =>
    match setCenters g placement.centers with
    | (g, some id) => ⟨g, some input, .error (.unknownNode id)⟩
    | (g, none) =>
      let (laidOut, size) := Layered.frame (setRoutes g placement.routes)
      ⟨laidOut, some input, .ok size⟩

/-- Lays a graph out with an engine; `dot?` is the dot program where it is installed. -/
def run (engine : Engine) (dot? : Option (String → DotRun)) (g : Graph α) : LayoutOutcome α :=
  if engine == .builtin || g.nodes.isEmpty then builtin g
  else
    match dot? with
    | some dot => viaDot g dot
    | none =>
      if engine == .graphviz then ⟨g, none, .error (.engine .notInstalled)⟩ else builtin g

end Layout

/-- Lays a graph out with the engine of a name; `dot?` is the dot program where it is installed. -/
def layout {α : Type} [Scalar α] [Decimal.OfNumeral α] [Decimal.ToFixed α] (engine : String)
    (dot? : Option (String → DotRun)) (g : Graph α) : LayoutOutcome α :=
  match g.sizeFault? with
  | some fault => ⟨g, none, .error (.geometry fault)⟩
  | none =>
    match Engine.ofName? engine with
    | none => ⟨g, none, .error (.unknownEngine engine)⟩
    | some engine => Layout.run engine dot? g

end Scrawl
