import Scrawl.Config
import Scrawl.Description.Reader
import Scrawl.ErrorCode
import Scrawl.Font.Size
import Scrawl.Label.PlainFace
import Scrawl.Scene.Markup
/-!
# Scrawl.Pipeline — from a description to a scene

A description is read, its labels are measured, the graph is laid out and drawn.  Labels are
measured with the plain face.  A run keeps notes of its milestones for who wants to follow it.
-/

namespace Scrawl

/-- Why a description was not rendered. -/
inductive PipelineFault
  | description (fault : Description.Fault)
  | measure (fault : Label.MeasureFault)
  | layout (fault : LayoutFault)
  | render (fault : Scene.RenderFault Float)
  /-- A setting without a value is needed. -/
  | lacking (setting : Setting)

namespace PipelineFault

/-- The wording of the fault. -/
def message : PipelineFault → String
  | description fault => fault.message
  | measure fault => fault.message
  | layout fault => fault.message
  | render fault => fault.message
  | lacking setting => setting.lackText

/-- The code of a fault that a rendering may meet; none for one that is passed on as it is. -/
def code? : PipelineFault → Option ErrorCode
  | description _ => some .description
  | measure (.number _) => none
  | measure (.device _) => none
  | measure _ => some .measure
  | layout (.geometry _) => some .geometry
  | layout (.engine (.plain (.unreadable _))) => none
  | layout (.engine _) => some .layout
  | layout _ => none
  | render (.geometry _) => some .geometry
  | render _ => none
  | lacking _ => none

end PipelineFault

/-- A milestone of a run. -/
inductive Note
  /-- The default font is used for a family. -/
  | defaultFont (family : String)
  | laidOut (nodes edges : Nat) (engine : Engine) (width height : Float)
  | rendered (nodes edges : Nat) (width height : Float)

/-- The outcome of a run: its notes, and the result. -/
structure Run (β : Type) where
  notes : List Note
  result : Except PipelineFault β

/-- What a run needs beside the configuration. -/
structure Resources where
  /-- The dot program, where it is installed. -/
  dot? : Option (String → DotRun) := none
  /-- The seed for who asks for fresh strokes. -/
  freshSeed : Int := 0

namespace Pipeline

/-- The measurer of a configuration. -/
def measurer (c : Config) : Label.Measurer Float where
  face :=
    match Font.loadSize c.fontSize with
    | .ok size => .ok (Label.plainFace (Float.ofInt size))
    | .error fault => .error (.number fault)
  padding := c.padding

/-- The engine that a layout with a dot run or without one has used. -/
def usedEngine (o : LayoutOutcome Float) : Engine :=
  if o.dotInput.isSome then .graphviz else .builtin

/-- Whether a font is loaded for a graph: there is a label to measure, and the size is one. -/
def loadsFont (c : Config) (g : Graph Float) : Bool :=
  !g.nodes.isEmpty && (Font.loadSize c.fontSize).toOption.isSome

/-- The note of a font that is loaded. -/
def fontNotes (c : Config) (g : Graph Float) : List Note :=
  if loadsFont c g then [.defaultFont c.fontFamily] else []

/-- Reads, measures and lays out a description. -/
def prepare (r : Resources) (c : Config) (text : String) : Run (Graph Float) :=
  match Description.read text with
  | .error fault => ⟨[], .error (.description fault)⟩
  | .ok g =>
    let g := { g with marginX := c.margin, marginY := c.margin }
    let notes := fontNotes c g
    match ((measurer c).graph none g).2 with
    | .error fault => ⟨notes, .error (.measure fault)⟩
    | .ok g =>
      let o := layout c.engine.name r.dot? g
      match o.result with
      | .error fault => ⟨notes, .error (.layout fault)⟩
      | .ok (w, h) =>
        ⟨notes ++ [.laidOut g.nodes.length g.edges.length (usedEngine o) w h], .ok o.graph⟩

/-- The drawing style of a configuration. -/
def style (c : Config) : Scene.Style Float := ⟨c.sketchiness, c.fontFamily, c.fontSize⟩

/-- Renders a description. -/
def run (r : Resources) (c : Config) (text : String) : Run Scene :=
  let prepared := prepare r c text
  match prepared.result with
  | .error fault => ⟨prepared.notes, .error fault⟩
  | .ok g =>
    match Scene.render (style c) (c.seed.getD r.freshSeed) g with
    | .error fault => ⟨prepared.notes, .error (.render fault)⟩
    | .ok s =>
      ⟨prepared.notes ++ [.rendered g.nodes.length g.edges.length s.width s.height], .ok s⟩

end Pipeline

end Scrawl
