import Scrawl.Cli.Failure
import Scrawl.Cli.Lacking
import Scrawl.Text.Lines
/-!
# Scrawl.Cli.Watch — rendering a file whenever it changes

A watched file is rendered onto a file surface.  Failures are shown as they come and the output is
left as it was; the watch goes on, and only one that ends after a first look has their exit code.
-/

namespace Scrawl.Cli

open File (Disk Path)
open Live (Session Ran)

/-- How a file is watched. -/
structure Watch where
  config : Config
  /-- The settings of the configuration that have no value. -/
  lacking : List Setting := []
  input : Path
  output : Path
  poll : Float
  once : Bool
  format : Format
  verbose : Bool

/-- The text of a file, with its line ends unified. -/
def textOf (bytes : List UInt8) : Except Text.Utf8.Fault String :=
  (Text.Utf8.decode bytes).map fun s => String.ofList (Text.unifyNewlines s.toList)

namespace Watch

/-- The means of the watch: its one surface is the output. -/
def workshop (watch : Watch) (r : Resources) : Live.Workshop Unit where
  render := runLacking watch.lacking r watch.config
  mount := fun _ => Live.Mount.file watch.output

/-- The failure that a run comes to, if it is reported. -/
def failure? (watch : Watch) (ran : Ran Unit) : Option Failure :=
  let file := some watch.input.toString
  match ran.outcome with
  | .notRendered _ fault => some (Failure.ofPipeline fault file)
  | .notMounted fault => some (Failure.ofMount fault file)
  | _ => none

/-- What is written about a run; `generation` is the number of its scene. -/
def lines (watch : Watch) (generation : Nat) (ran : Ran Unit) : String :=
  let mounted :=
    match ran.outcome with
    | .mounted _ =>
      if watch.verbose then
        logLine .debug "surface"
          ("mounted generation " ++ toString generation ++ " at " ++ watch.output.toString)
      else ""
    | _ => ""
  let logged := match ran.outcome.log? with
    | some (level, message) => logLine level "scheduler" message
    | none => ""
  let failed := match watch.failure? ran with
    | some f => f.print watch.format
    | none => ""
  noteLines watch.verbose ran.notes ++ mounted ++ logged ++ failed

/-- What is written about an input that cannot be read. -/
def unreadable (watch : Watch) (fault : File.Fault) : String :=
  logLine .warning "cli" ("cannot read " ++ watch.input.toString ++ ": " ++ fault.message)

/-- Asks for the description in the input to be rendered; what is written if it cannot be read. -/
def look {τ : Type} [Add τ] (watch : Watch) (s : Session τ Unit) :
    Except Failure (String × Session τ Unit) :=
  match s.disk.read watch.input with
  | .error fault => .ok (watch.unreadable fault, s)
  | .ok bytes =>
    match textOf bytes with
    | .error fault => .error (.internal fault.message)
    | .ok text => .ok ("", s.schedule () text)

end Watch

end Scrawl.Cli
