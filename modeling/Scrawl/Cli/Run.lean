import Scrawl.Cli.Guide
import Scrawl.Cli.Watch
/-!
# Scrawl.Cli.Run — the program

The program reads its arguments and runs a command on a disk.  What it does is a reply: an exit
code, two texts and the disk after it.  An error is shown in the format that is asked for; while the
arguments are not read in full, in the one that can be told before.
-/

namespace Scrawl.Cli

open File (Disk Path)
open Live (Session)

/-- What the program finds. -/
structure World where
  disk : Disk := {}
  /-- The variables of the environment. -/
  environment : String → Option String := fun _ => none
  /-- What is piped in; none from a terminal. -/
  piped : Option String := none
  resources : Resources := {}

/-- What the program does. -/
structure Reply where
  exitCode : Nat
  stdout : String := ""
  stderr : String := ""
  disk : Disk

/-- The course of a command: what is written, the disk after it, and the exit code or the failure
that is still to be shown. -/
structure Course where
  stdout : String := ""
  stderr : String := ""
  disk : Disk
  result : Except Failure Nat := .ok 0

namespace Course

/-- The reply at the end of a course. -/
def reply (c : Course) (format : Format) : Reply :=
  match c.result with
  | .ok exitCode => ⟨exitCode, c.stdout, c.stderr, c.disk⟩
  | .error f => ⟨f.exitCode, c.stdout, c.stderr ++ f.print format, c.disk⟩

end Course

/-- A text that is given, unless it is empty. -/
def nonempty? (s : Option String) : Option String := s.filter (!·.isEmpty)

namespace Arguments

/-- Whether the arguments leave the description to be piped in. -/
def readsPipe (a : Arguments) : Bool :=
  a.command == some .render && a.text.isNone && (nonempty? a.input).isNone

/-- The configuration from the environment and the options over it. -/
def config (a : Arguments) (environment : String → Option String) : Except Failure Config :=
  let read : Except SettingFault Config := do
    let c ← (Config.ofEnvironment environment).mapError .refused
    applyLacking a.lacking c a.settings
  match read with
  | .ok c => .ok (if a.noSeed then { c with seed := none } else c)
  | .error (.refused fault) =>
    .error (.arguments fault.message "Check render options and SKETCHGRAPH_* variables.")
  | .error (.lacking setting) => .error (.internal setting.lackText)

end Arguments

/-! ### Rendering once -/

/-- A description, the name of where it comes from, and its file if it has one. -/
structure Source where
  text : String
  name : String
  path : Option Path := none

/-- Reads the description from a file. -/
def sourceOfFile (d : Disk) (path : Path) : Except Failure Source :=
  let name := path.toString
  match d.exists? path with
  | .error fault => .error (.system fault.message none)
  | .ok false => .error (.notFound name)
  | .ok true =>
    match d.read path with
    | .error fault => .error (.notRead name (some fault.message))
    | .ok bytes =>
      match textOf bytes with
      | .error fault => .error (.internal fault.message)
      | .ok text => .ok ⟨text, name, some path⟩

/-- Reads the description from where the arguments say. -/
def sourceOf (w : World) (a : Arguments) : Except Failure Source :=
  match nonempty? a.input, a.text with
  | some _, some _ =>
    .error (.arguments "--text cannot be combined with file input" "Use either FILE or --text.")
  | none, some text => .ok { text, name := "<text>" }
  | some path, none => sourceOfFile w.disk (Path.ofString path)
  | none, none =>
    match w.piped with
    | none =>
      .error (.arguments "no input provided" "Use a subcommand with FILE, --text, or pipe stdin.")
    | some text =>
      if (Text.strip text).isEmpty then
        .error (.arguments "stdin was empty" "Pipe a digraph description into stdin.")
      else .ok { text, name := "<stdin>" }

/-- The path of the output for an input without one. -/
def outputFor (input : Path) : Except Failure Path :=
  match input.withSuffix? ".svg" with
  | some path => .ok path
  | none =>
    .error (.internal ("PosixPath(" ++ Text.quoted input.toString ++ ") has an empty name"))

/-- The path of the output: as given, else beside the input. -/
def outputOf (a : Arguments) (input : Path) : Except Failure Path :=
  match nonempty? a.output with
  | some path => .ok (Path.ofString path)
  | none => outputFor input

/-- The failure of a rendering.  One that is not foreseen has no file. -/
def renderFailure (fault : PipelineFault) (source : String) : Failure :=
  match fault.code? with
  | some .geometry => .ofPipeline fault none
  | some _ => .ofPipeline fault (some source)
  | none => .ofPipeline fault none

/-- Puts a drawing out: to a file where one is asked for or the description is from one. -/
def putOut (a : Arguments) (source : Source) (svg : String) (d : Disk) : Course :=
  let shown : Course := { stdout := if svg.endsWith "\n" then svg else svg ++ "\n", disk := d }
  let written (path : Except Failure Path) : Course :=
    match path with
    | .error f => { disk := d, result := .error f }
    | .ok path =>
      match d.write path (Text.Utf8.encode (svg ++ "\n")) with
      | .error fault =>
        let failure : Failure :=
          if fault.refusal.isSystem then .notWritten path.toString fault
          else .internal fault.message
        { disk := d, result := .error failure }
      | .ok d => { stdout := "Wrote " ++ path.toString ++ "\n", disk := d }
  match a.toStdout, source.path with
  | true, _ => shown
  | false, some input => written (outputOf a input)
  | false, none =>
    match nonempty? a.output with
    | some path => written (.ok (Path.ofString path))
    | none => shown

/-- The command `render`. -/
def render (w : World) (a : Arguments) (verbose : Bool) : Course :=
  if a.toStdout && (nonempty? a.output).isSome then
    { disk := w.disk
      result := .error (.arguments "--stdout and --output are mutually exclusive"
        "Choose either --stdout or --output.") }
  else
    let found : Except Failure (Config × Source) := do
      return (← a.config w.environment, ← sourceOf w a)
    match found with
    | .error f => { disk := w.disk, result := .error f }
    | .ok (config, source) =>
      let run := runLacking a.lacking w.resources config source.text
      let notes := noteLines verbose run.notes
      match run.result with
      | .error fault =>
        { stderr := notes, disk := w.disk, result := .error (renderFailure fault source.name) }
      | .ok scene => { putOut a source scene.toSvg w.disk with stderr := notes }

/-! ### Watching -/

/-- The watch that the arguments ask for. -/
def watchOf (w : World) (a : Arguments) (verbose : Bool) : Except Failure Watch := do
  if a.valueless.contains .poll then throw (.internal (notCompared "<="))
  if a.poll ≤ 0.0 then throw (.arguments "--poll must be > 0" "Use an interval like 0.25.")
  let config ← a.config w.environment
  let input := Path.ofString (a.input.getD "")
  match w.disk.exists? input with
  | .error fault => throw (.system fault.message none)
  | .ok false => throw (.notFound input.toString)
  | .ok true =>
    let output ← outputOf a input
    return {
      config, input, output, verbose
      lacking := a.lacking
      poll := a.poll, once := a.once, format := a.errorFormat }

/-- Looks at the input once and waits until it is rendered. -/
def Watch.lookOnce (watch : Watch) (r : Resources) (d : Disk) : Course :=
  match Session.start? (κ := Unit) watch.config.delay d with
  | .error fault => { disk := d, result := .error (.internal fault.message) }
  | .ok s =>
    match watch.look s with
    | .error f => { disk := d, result := .error f }
    | .ok (before, s) =>
      let (runs, s) := s.finish (watch.workshop r)
      let generation := (s.shown ()).generation
      let stderr := before ++ String.join (runs.map (watch.lines generation))
      match (runs.filterMap watch.failure?).getLast? with
      | some f => { stderr, disk := s.disk, result := .ok f.exitCode }
      | none =>
        if generation == 0 then
          { stderr, disk := s.disk, result := .error (.notRead watch.input.toString none) }
        else { stdout := "Wrote " ++ watch.output.toString ++ "\n", stderr, disk := s.disk }

/-- The command `watch` as far as its first look. -/
def watch (w : World) (a : Arguments) (verbose : Bool) : Course :=
  match watchOf w a verbose with
  | .error f => { disk := w.disk, result := .error f }
  | .ok watch => watch.lookOnce w.resources w.disk

/-! ### The program -/

/-- Whether the whole log is asked for, by an argument anywhere or by the environment. -/
def isDebugging (w : World) (args : List String) : Bool :=
  args.contains "--debug" || w.environment "SKETCHGRAPH_DEBUG" == some "1"

/-- Runs a command. -/
def runCommand (w : World) (a : Arguments) (verbose : Bool) : Course :=
  match a.command with
  | none => { disk := w.disk, result := .error .noCommand }
  | some .render => render w a verbose
  | some .watch => watch w a verbose
  | some .grammar => { stdout := grammarGuide ++ "\n", disk := w.disk }
  | some .sample => { stdout := exampleGuide, disk := w.disk }

/-- Runs the program on an argument list. -/
def run (w : World) (args : List String) : Reply :=
  let refused (f : Failure) (format : Format) : Reply :=
    Course.reply { disk := w.disk, result := .error f } format
  if args.isEmpty then refused .noCommand .text
  else
    match Arguments.read args with
    | .error (.help command) => { exitCode := 0, stdout := usage command, disk := w.disk }
    | .error (.fault fault) =>
      refused (.arguments fault.message "Use subcommands: render, watch, grammar, example.")
        (formatBefore args)
    | .ok a => (runCommand w a (a.verbose || isDebugging w args)).reply a.errorFormat

end Scrawl.Cli
