import Scrawl.Graph
import Scrawl.Text.Quoted
/-!
# Scrawl.Label.Surface — sizing labels on a drawing surface

A label is laid out on a scratch surface, which is opened for one label or one graph and closed in
any case.  Its width is that of its box, measured from the origin where the box starts to the left
of it; its height is at least that of its lines.  A node is as large as its label with the padding
on all sides.
-/

namespace Scrawl.Label

/-- The kinds of failure of the drawing system. -/
inductive DeviceFault
  | system
  | value
  | type
  | memory
  | other (kind : String)
  deriving DecidableEq

/-- A failure of the drawing system with its text. -/
structure DeviceError where
  fault : DeviceFault
  text : String
  deriving DecidableEq

/-- What is asked of a surface. -/
inductive Request (α : Type)
  /-- The box of a text without line breaks. -/
  | line (text : String)
  /-- The box of a text with line breaks, lines standing apart by the spacing. -/
  | block (text : String) (spacing : α)

/-- Why a label has no size. -/
inductive MeasureFault
  /-- No surface could be opened. -/
  | noSurface (reason : String)
  | unmeasurable (label reason : String)
  | noFont (family : String)
  /-- The font size, or a length that comes of it, is no number. -/
  | number (fault : NumberFault)
  /-- A failure that is passed on as it is. -/
  | device (error : DeviceError)
  deriving DecidableEq

/-- The wording of the fault. -/
def MeasureFault.message : MeasureFault → String
  | noSurface reason => "scratch drawing surface unavailable: " ++ reason
  | unmeasurable label reason =>
    "failed to measure label " ++ Text.quoted label ++ ": " ++ reason
  | noFont family => "no usable font for family \"" ++ family ++ "\""
  | number fault => fault.message
  | device error => error.text

/-- What a surface does with a request: a box, or a failure. -/
inductive Reply (α : Type)
  | box (b : Box α)
  | failed (error : DeviceError)
  /-- A length of the box is out of range. -/
  | outOfRange (fault : NumberFault)

/-- A font as measuring sees it. -/
structure Face (α : Type) where
  /-- The height of a line: ascent and descent, or the font size. -/
  lineHeight : α
  reply : Request α → Reply α

/-- How labels are measured: the font, or why there is none, and the padding. -/
structure Measurer (α : Type) where
  face : Except MeasureFault (Face α)
  padding : α

/-- What happens on the surfaces. -/
inductive Event (α : Type)
  | opened
  | asked (request : Request α)
  | closed

/-- The outcome of measuring: what happened, and the result. -/
abbrev Outcome (α β : Type) := List (Event α) × Except MeasureFault β

variable {α : Type} [Scalar α]

/-- The space between the lines of a label. -/
def lineSpacing : α := 4.0

/-- The request for a label. -/
def requestOf (text : String) : Request α :=
  if text.toList.contains '\n' then .block text lineSpacing else .line text

/-- The count of lines of a label. -/
def lineCount (text : String) : Nat := text.toList.count '\n' + 1

/-- The height of the lines of a label. -/
def linesHeight (face : Face α) (text : String) : α :=
  face.lineHeight * Scalar.ofNat (lineCount text) +
    lineSpacing * Scalar.ofNat (lineCount text - 1)

/-- The size of a label that takes a box. -/
def footprint (face : Face α) (text : String) (b : Box α) : α × α :=
  (b.right - Scalar.min b.left 0.0,
   Scalar.max b.bottom (linesHeight face text) - Scalar.min b.top 0.0)

/-- Whether a failure to measure is reported as such. -/
def DeviceFault.isMeasuring : DeviceFault → Bool
  | system | value | type => true
  | _ => false

/-- Whether a failure to open a surface is reported as such. -/
def DeviceFault.isOpening : DeviceFault → Bool
  | system | value | memory => true
  | _ => false

namespace Measurer

/-- Measures a label on an open surface. -/
def text (m : Measurer α) (label : String) : Outcome α (α × α) :=
  match m.face with
  | .error fault => ([], .error fault)
  | .ok face =>
    let request := requestOf label
    let result :=
      match face.reply request with
      | .box b => .ok (footprint face label b)
      | .outOfRange fault => .error (.number fault)
      | .failed e =>
        if e.fault.isMeasuring then .error (.unmeasurable label e.text) else .error (.device e)
    ([.asked request], result)

/-- The size of a node for a label. -/
def node (m : Measurer α) (label : String) : Outcome α (α × α) :=
  let (events, size) := m.text label
  (events, size.map fun (w, h) => (w + 2.0 * m.padding, h + 2.0 * m.padding))

/-- Sizes nodes in order up to the first that has no size. -/
def nodes (m : Measurer α) : List (Node α) → Outcome α (List (Node α))
  | [] => ([], .ok [])
  | v :: rest =>
    match m.node v.label with
    | (events, .error fault) => (events, .error fault)
    | (events, .ok (w, h)) =>
      let (more, sized) := m.nodes rest
      (events ++ more, sized.map ({ v with width := some w, height := some h } :: ·))

/-- Opens a scratch surface, measures on it, and closes it; `opening?` is why none can be opened. -/
def onScratch {β : Type} (opening? : Option DeviceError) (body : Outcome α β) : Outcome α β :=
  match opening? with
  | none => (.opened :: (body.1 ++ [.closed]), body.2)
  | some e =>
    if e.fault.isOpening then ([], .error (.noSurface e.text)) else ([], .error (.device e))

/-- Sizes all nodes of a graph on one scratch surface. -/
def graph (m : Measurer α) (opening? : Option DeviceError) (g : Graph α) :
    Outcome α (Graph α) :=
  let (events, sized) := onScratch opening? (m.nodes g.nodes)
  (events, sized.map fun nodes => { g with nodes })

end Measurer

end Scrawl.Label
