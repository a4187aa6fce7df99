import Scrawl.Cli.Options
import Scrawl.File.Disk
import Scrawl.Live.Session
import Scrawl.Text.Json
/-!
# Scrawl.Cli.Failure — errors as the command line shows them

An error has a stable code, an exit code and a hint on what to do, and is shown as two lines of text
or as one line with an object.
-/

namespace Scrawl.Cli

/-- An error of a command. -/
structure Failure where
  code : ErrorCode
  message : String
  hint : Option String := none
  exitCode : Nat := 1
  file : Option String := none
  line : Option Nat := none
  column : Option Nat := none
  retryable : Bool := true

namespace Failure

open Text.Json in
/-- The fields of an error in their order. -/
def fields (f : Failure) : List (String × Value) :=
  let text (s : Option String) : Value := (s.map Value.string).getD .null
  let number (n : Option Nat) : Value := (n.map fun n => Value.int n).getD .null
  [("ok", .bool false), ("code", .string f.code.name), ("message", .string f.message),
    ("file", text f.file), ("line", number f.line), ("column", number f.column),
    ("hint", text f.hint), ("retryable", .bool f.retryable)]

/-- The error in a format. -/
def print (f : Failure) : Format → String
  | .json => Text.Json.object f.fields ++ "\n"
  | .text =>
    "error[" ++ f.code.name ++ "]: " ++ f.message ++ "\n" ++
      match f.hint with
      | none => ""
      | some hint => if hint.isEmpty then "" else "hint: " ++ hint ++ "\n"

/-- An error in what is asked for. -/
def arguments (message hint : String) : Failure :=
  { code := .arguments, message, hint := some hint, exitCode := 2 }

/-- No command is given. -/
def noCommand : Failure :=
  arguments "missing subcommand" "Use one of: render, watch, grammar, example."

/-- The input is not there. -/
def notFound (path : String) : Failure :=
  { code := .read, message := "input file not found: " ++ path, exitCode := 4, file := some path }

/-- The input cannot be read. -/
def notRead (path : String) (hint : Option String) : Failure :=
  { code := .read, message := "failed to read input file: " ++ path, hint, exitCode := 4
    file := some path }

/-- The output cannot be written. -/
def notWritten (path : String) (fault : File.Fault) : Failure :=
  { code := .write, message := "failed to write output file: " ++ path
    hint := some fault.message, exitCode := 4, file := some path }

/-- The file system fails otherwise. -/
def system (message : String) (file : Option String) : Failure :=
  { code := .write, message, exitCode := 4, file }

/-- A failure that is not foreseen. -/
def internal (message : String) : Failure :=
  { code := .internal, message, hint := some "Re-run with --debug to see traceback."
    retryable := false }

/-- The error for a description that is refused. -/
def ofDescription (fault : Description.Fault) (file : Option String) : Failure :=
  { code := .description, message := fault.message
    hint := some ("Expected digraph \x7b A [label=\"...\"]; A -> B; \x7d; " ++
      "see `sketchgraph grammar`.")
    exitCode := 2, file
    line := fault.position.map (·.line), column := fault.position.map (·.column) }

/-- The error for a fault of a rendering. -/
def ofPipeline (fault : PipelineFault) (file : Option String) : Failure :=
  match fault, fault.code? with
  | .description d, _ => ofDescription d file
  | _, some .measure =>
    { code := .measure, message := fault.message
      hint := some "Check --font-family/--font-path and that Pillow can load fonts."
      exitCode := 3, file }
  | _, some .layout =>
    { code := .layout, message := fault.message, hint := some "Retry with --engine builtin."
      exitCode := 3, file }
  | _, some .geometry =>
    { code := .geometry, message := fault.message
      hint := some "Re-run with --debug and report the traceback.", file, retryable := false }
  | .measure (.device ⟨.system, text⟩), _ => system text file
  | _, _ => internal fault.message

/-- The error for a scene that was not mounted. -/
def ofMount (fault : Live.MountFault) (file : Option String) : Failure := system fault.message file

end Failure

/-- One line of a log. -/
def logLine (level : Live.Level) (source message : String) : String :=
  level.name ++ " sketchgraph." ++ source ++ ": " ++ message ++ "\n"

/-- The line of a milestone. -/
def noteLine : Note → String
  | .defaultFont family =>
    logLine .debug "measure"
      ("no font file found for " ++ Text.quoted family ++ "; using Pillow default font")
  | .laidOut nodes edges engine w h =>
    logLine .debug "layout" ("laid out " ++ toString nodes ++ " nodes and " ++ toString edges ++
      " edges (" ++ engine.name ++ ") in " ++ Decimal.fixed 1 w ++ "x" ++ Decimal.fixed 1 h)
  | .rendered nodes edges w h =>
    logLine .debug "pipeline" ("rendered " ++ toString nodes ++ " nodes, " ++ toString edges ++
      " edges into " ++ Decimal.shortest w ++ "x" ++ Decimal.shortest h ++ " scene")

/-- The lines of milestones, for who wants to see them. -/
def noteLines (verbose : Bool) (notes : List Note) : String :=
  if verbose then String.join (notes.map noteLine) else ""

end Scrawl.Cli
