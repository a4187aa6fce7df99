import Scrawl.Cli.Run
/-!
# Scrawl.Main — the command line

The outer layer: it looks at the paths that the arguments name, runs the program on what it found,
and does what the reply says.  A watch goes on until it is interrupted.
-/

namespace Scrawl.Shell

open Cli File

/-- The path as it is named on the real disk. -/
def observePrefix (d : Disk) (p : Path) : IO Disk := do
  let name := (← IO.currentDir) / p.toString
  match d.place p with
  | .error _ => return d
  | .ok place =>
    if ← name.isDir then return d.put place .folder
    else if ← name.pathExists then
      try return d.put place (.file (← IO.FS.readBinFile name).toList)
      catch _ => return d.put place .sealed
    else return d.erase place

/-- Brings what stands on the way to a path, and at its end, up to date. -/
def observe (d : Disk) (p : Path) : IO Disk :=
  (List.range (p.parts.length + 1)).foldlM
    (fun d n => observePrefix d { p with parts := p.parts.take n }) d

/-- The paths that the arguments name. -/
def namedPaths (a : Arguments) : List Path :=
  let input := (nonempty? a.input).map Path.ofString
  let output := (nonempty? a.output).map Path.ofString
  let beside := input.bind (·.withSuffix? ".svg")
  input.toList ++ output.toList ++ beside.toList

/-- The disk as far as the arguments name it. -/
def snapshot (a : Arguments) : IO Disk := do
  let home := (Path.ofString (← IO.currentDir).toString).parts
  (namedPaths a).foldlM observe { home }

/-- Writes the files that have changed, each in one step. -/
def save (before after : Disk) : IO Unit := do
  for (place, entry) in after.entries do
    if let .file bytes := entry then
      if before.entry? place != some entry then
        let name := "/" ++ "/".intercalate place
        let temporary := name ++ ".tmp"
        IO.FS.writeBinFile temporary ⟨bytes.toArray⟩
        IO.FS.rename temporary name

/-- All that is piped in. -/
partial def readAll (input : IO.FS.Stream) (text : String) : IO String := do
  let line ← input.getLine
  if line.isEmpty then return text else readAll input (text ++ line)

/-- The variables that the program reads. -/
def environment : IO (String → Option String) := do
  let names := "SKETCHGRAPH_DEBUG" :: Setting.all.map (·.variable)
  let values ← names.mapM fun name => return (name, ← IO.getEnv name)
  return fun name => (values.lookup name).join

/-- What the program finds, for the arguments it is called with. -/
def world (a : Arguments) : IO World := do
  let input ← IO.getStdin
  let piped ←
    if a.readsPipe && !(← input.isTty) then some <$> readAll input "" else pure none
  let freshSeed ← IO.rand 0 0x7FFFFFFF
  return { disk := ← snapshot a, environment := ← environment, piped, resources := { freshSeed } }

/-- Does what a reply says. -/
def perform (w : World) (r : Reply) : IO UInt32 := do
  save w.disk r.disk
  IO.print r.stdout
  IO.eprint r.stderr
  return r.exitCode.toUInt32

/-- The seconds since some time. -/
def seconds : IO Float := return (← IO.monoMsNow).toFloat / 1000.0

/-- Watches on: looks whether the input has changed, waits, and runs what is due. -/
partial def watchOn (watch : Watch) (r : Resources) (s : Live.Session Float Unit)
    (last : Option (List UInt8)) : IO UInt32 := do
  let before ← observe (← observe s.disk watch.input) watch.output
  let s := { s with disk := before, debouncer := s.debouncer.wait (← seconds) }
  let bytes := (before.read watch.input).toOption
  let looked := if bytes.isSome && bytes == last then .ok ("", s) else watch.look s
  match looked with
  | .error f =>
    IO.eprint (f.print watch.format)
    return f.exitCode.toUInt32
  | .ok (lines, s) =>
    IO.eprint lines
    IO.sleep (watch.poll * 1000.0).toUInt32
    let (runs, s) := s.advance (watch.workshop r) (← seconds)
    save before s.disk
    IO.eprint (String.join (runs.map (watch.lines (s.shown ()).generation)))
    watchOn watch r s bytes

/-- Runs the program. -/
def start (args : List String) : IO UInt32 := do
  match Arguments.read args with
  | .error _ =>
    let w : World := {}
    perform w (Cli.run w args)
  | .ok a =>
    let w ← world a
    if a.command == some .watch && !a.once then
      match watchOf w a (a.verbose || isDebugging w args) with
      | .error f => perform w (Course.reply { disk := w.disk, result := .error f } a.errorFormat)
      | .ok watch =>
        match Live.Session.start? watch.config.delay w.disk with
        | .error fault =>
          let course : Course := { disk := w.disk, result := .error (.internal fault.message) }
          perform w (course.reply a.errorFormat)
        | .ok s => watchOn watch w.resources s none
    else perform w (Cli.run w args)

end Scrawl.Shell

/-- The program. -/
def main (args : List String) : IO UInt32 := Scrawl.Shell.start args
