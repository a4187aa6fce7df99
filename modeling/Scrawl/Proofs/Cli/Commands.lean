import Scrawl.Cli.Run
import Scrawl.Proofs.Config
import Scrawl.Proofs.File.Requests
import Scrawl.Proofs.Live.Queue
import Scrawl.Proofs.Text.Utf8

/-!
# Scrawl.Proofs.Cli.Commands — rendering a file and watching it once

The two commands that take a file are told apart by their options, and each of them starts from a
configuration that is in range.  One look at a file asks for its text to be rendered, and nothing
else is asked for before the watch ends, so the session runs that text and no other.

* `finish_schedule`: a session in which one description is asked for runs that one.
* `inRange_of_config`: what the options give is in range.
* `run_of_render`, `run_of_watch`: the program runs the command of its arguments.
* `watchOf_eq`: the watch that the arguments ask for.
* `lookOnce_unread`, `lookOnce_noText`: a look at a file without a text.
-/

namespace Scrawl

namespace Live.Session

variable {κ : Type} [DecidableEq κ] {w : Workshop κ} {s : Session Float κ}

/-! ### A session with one request -/

theorem finish_idle (h : s.armed = []) : s.finish w = ([], s) := by
  rw [finish]
  split
  · rfl
  · next t ht =>
    rw [h] at ht
    cases ht

/-- A session with one request runs it and is then idle. -/
theorem finish_of_armed {t : Timer Float (κ × String)} (h : s.armed = [t]) :
    s.finish w = ([(s.fire w t).1], (s.fire w t).2) := by
  have hidle : (s.fire w t).2.armed = [] := by
    refine List.length_eq_zero_iff.mp (Nat.lt_one_iff.mp ?_)
    have hless := fire_armed_length_lt w (t := t) (by rw [h]; exact List.mem_singleton_self t)
    rwa [h] at hless
  rw [finish]
  split
  · next ht =>
    rw [h] at ht
    cases ht
  · next u hu =>
    rw [h] at hu
    obtain rfl : t = u := Option.some.inj hu
    dsimp only
    rw [finish_idle hidle]

/-- A session that has just started runs the description that is asked for. -/
theorem finish_schedule {delay : Float} {disk : File.Disk} {started : Session Float κ}
    (hstart : start? delay disk = .ok started) (v : κ) (text : String) :
    ∃ s : Session Float κ, s.disk = disk ∧ s.shown = (fun _ => {}) ∧
      (started.schedule v text).finish w = ([(s.run w v text).1], (s.run w v text).2) := by
  unfold start? at hstart
  split_ifs at hstart
  cases hstart
  let t : Timer Float (κ × String) := ⟨0, 0.0 + delay, (v, text)⟩
  let asked : Session Float κ :=
    Session.schedule { debouncer := Debouncer.start delay 0.0, disk } v text
  have harmed : asked.armed = [t] := rfl
  exact ⟨{ asked with debouncer := asked.debouncer.fire t }, rfl, rfl, finish_of_armed harmed⟩

end Live.Session

namespace Cli

open File (Disk Path)
open Live (Session)

variable {w : World} {args : List String} {a : Arguments} {c : Config} {name : String}
  {environment : String → Option String} {verbose : Bool}

/-! ### Options -/

/-- The configuration of the options goes over that of the environment. -/
theorem config_eq_ok (h : a.config environment = .ok c) :
    ∃ outer inner, Config.ofEnvironment environment = .ok outer ∧
      outer.apply a.settings = .ok inner ∧
      c = if a.noSeed then { inner with seed := none } else inner := by
  unfold Arguments.config at h
  dsimp only at h
  split at h
  · next inner hread =>
    cases houter : Config.ofEnvironment environment with
    | error fault =>
      rw [houter] at hread
      cases hread
    | ok outer =>
      rw [houter] at hread
      change applyLacking a.lacking outer a.settings = .ok inner at hread
      refine ⟨outer, inner, rfl, ?_, (Except.ok.inj h).symm⟩
      unfold applyLacking at hread
      split at hread
      · cases hread
      · cases happly : outer.apply a.settings with
        | error fault =>
          rw [happly] at hread
          cases hread
        | ok read =>
          rw [happly] at hread
          exact congrArg Except.ok (Except.ok.inj hread)
  · cases h
  · cases h

/-- The options give a configuration that is in range. -/
theorem inRange_of_config (h : a.config environment = .ok c) : c.InRange := by
  obtain ⟨outer, inner, -, hinner, rfl⟩ := config_eq_ok h
  have hrange := Config.inRange_of_apply hinner
  split_ifs
  · exact ⟨hrange.sketchiness, hrange.delay, hrange.padding, hrange.margin, hrange.fontSize⟩
  · exact hrange

/-- The arguments ask for the description in a file to be rendered. -/
structure Arguments.Renders (a : Arguments) (environment : String → Option String) (name : String)
    (c : Config) : Prop where
  command : a.command = some .render
  input : a.input = some name
  named : name ≠ ""
  text : a.text = none
  output : ¬ (a.toStdout ∧ (nonempty? a.output).isSome)
  config : a.config environment = .ok c

/-- The arguments ask for the description in a file to be watched for one look. -/
structure Arguments.Watches (a : Arguments) (environment : String → Option String) (name : String)
    (c : Config) : Prop where
  command : a.command = some .watch
  input : a.input = some name
  once : a.once
  polls : .poll ∉ a.valueless ∧ ¬ a.poll ≤ 0.0
  config : a.config environment = .ok c

/-! ### Commands -/

theorem read_nil : Arguments.read [] = .ok {} := by
  have hlevel : readLevel none {} [] = .ok ({}, []) := by
    simp [readLevel, readWords, scan, Operand.of]
  rw [Arguments.read, hlevel]
  rfl

/-- The program runs the command of its arguments. -/
theorem run_of_read (hread : Arguments.read args = .ok a) (hne : args ≠ []) :
    run w args = (runCommand w a (a.verbose || isDebugging w args)).reply a.errorFormat := by
  have hempty : ¬ args.isEmpty = true := by simpa using hne
  unfold run
  dsimp only
  rw [if_neg hempty, hread]

theorem ne_nil_of_command (hread : Arguments.read args = .ok a) (h : a.command ≠ none) :
    args ≠ [] := by
  rintro rfl
  rw [read_nil] at hread
  cases hread
  exact h rfl

theorem run_of_render (hread : Arguments.read args = .ok a) (h : a.command = some .render) :
    run w args = (render w a (a.verbose || isDebugging w args)).reply a.errorFormat := by
  rw [run_of_read hread (ne_nil_of_command hread (by rw [h]; nofun)), runCommand, h]

theorem run_of_watch (hread : Arguments.read args = .ok a) (h : a.command = some .watch) :
    run w args = (watch w a (a.verbose || isDebugging w args)).reply a.errorFormat := by
  rw [run_of_read hread (ne_nil_of_command hread (by rw [h]; nofun)), runCommand, h]

theorem sourceOf_eq (h : a.Renders w.environment name c) :
    sourceOf w a = sourceOfFile w.disk (Path.ofString name) := by
  have hinput : nonempty? a.input = some name := by simp [nonempty?, h.input, h.named]
  rw [sourceOf, hinput, h.text]

/-- A file that cannot be read is not rendered. -/
theorem render_of_error (h : a.Renders w.environment name c) {f : Failure}
    (hsource : sourceOfFile w.disk (Path.ofString name) = .error f) :
    render w a verbose = { disk := w.disk, result := .error f } := by
  unfold render
  rw [if_neg (by simpa using h.output), h.config, sourceOf_eq h, hsource]
  rfl

/-- The program reports a file that cannot be read. -/
theorem run_of_error (hread : Arguments.read args = .ok a) (h : a.Renders w.environment name c)
    {f : Failure} (hsource : sourceOfFile w.disk (Path.ofString name) = .error f) :
    run w args =
      { exitCode := f.exitCode, stderr := f.print a.errorFormat, disk := w.disk } := by
  rw [run_of_render hread h.command, render_of_error h hsource, Course.reply]
  dsimp only
  rw [String.empty_append]

/-- The output of a watch, if there is something to be watched. -/
def outputBeside (d : Disk) (a : Arguments) (input : Path) : Except Failure Path :=
  match d.exists? input with
  | .error fault => .error (.system fault.message none)
  | .ok false => .error (.notFound input.toString)
  | .ok true => outputOf a input

/-- The watch that the arguments ask for. -/
def Arguments.watching (a : Arguments) (c : Config) (input output : Path) (verbose : Bool) :
    Watch :=
  { config := c, lacking := a.lacking, input, output, poll := a.poll, once := a.once
    format := a.errorFormat, verbose }

theorem watchOf_eq (h : a.Watches w.environment name c) :
    watchOf w a verbose = (outputBeside w.disk a (Path.ofString name)).map fun output =>
      a.watching c (Path.ofString name) output verbose := by
  have hvalue : ¬ a.valueless.contains .poll = true := by simpa using h.polls.1
  unfold watchOf outputBeside
  rw [if_neg hvalue, if_neg h.polls.2, h.config, h.input, Option.getD_some]
  simp only [bind, Except.bind]
  cases w.disk.exists? (Path.ofString name) with
  | error fault => rfl
  | ok there =>
    cases there with
    | false => rfl
    | true => cases outputOf a (Path.ofString name) <;> rfl

theorem watch_of_error (h : a.Watches w.environment name c) {f : Failure}
    (houtput : outputBeside w.disk a (Path.ofString name) = .error f) :
    watch w a verbose = { disk := w.disk, result := .error f } := by
  rw [watch, watchOf_eq h, houtput]
  rfl

theorem watch_of_ok (h : a.Watches w.environment name c) {output : Path}
    (houtput : outputBeside w.disk a (Path.ofString name) = .ok output) :
    watch w a verbose =
      (a.watching c (Path.ofString name) output verbose).lookOnce w.resources w.disk := by
  rw [watch, watchOf_eq h, houtput]
  rfl

/-! ### One look -/

section Looks

variable (watch : Watch) (r : Resources) {d : Disk} (hrange : watch.config.InRange)

include hrange

/-- A look at a file that cannot be read asks for nothing, so nothing is rendered. -/
theorem lookOnce_unread {fault : File.Fault} (hread : d.read watch.input = .error fault) :
    watch.lookOnce r d = { stderr := watch.unreadable fault, disk := d
                           result := .error (.notRead watch.input.toString none) } := by
  unfold Watch.lookOnce Session.start?
  rw [if_neg (Decimal.not_lt_zero_iff.mpr hrange.delay)]
  simp only [Watch.look, hread]
  rw [Session.finish_idle rfl]
  simp

theorem lookOnce_noText {bytes : List UInt8} (hread : d.read watch.input = .ok bytes)
    {fault : Text.Utf8.Fault} (htext : textOf bytes = .error fault) :
    watch.lookOnce r d = { disk := d, result := .error (.internal fault.message) } := by
  unfold Watch.lookOnce Session.start?
  rw [if_neg (Decimal.not_lt_zero_iff.mpr hrange.delay)]
  simp only [Watch.look, hread, htext]

end Looks

/-! ### An argument list -/

/-- The arguments `render g` as they are read. -/
def renderSample : Arguments := { command := some .render, input := some "g" }

theorem read_renderSample : Arguments.read ["render", "g"] = .ok renderSample := by
  have hlevel (r : Reading) : readLevel none r ["render", "g"] =
      .ok ({ r with hasInput := false }, ["render", "g"]) := by cbv
  have hcommand (r : Reading) : readCommand r ["render", "g"] =
      .ok { r with arguments := { r.arguments with command := some .render, input := some "g" }
                   hasInput := true } := by cbv
  simp only [Arguments.read, hlevel, hcommand, bind, Except.bind]
  rfl

theorem renders_renderSample : renderSample.Renders (fun _ => none) "g" {} where
  command := rfl
  input := rfl
  named := by decide
  text := rfl
  output := by decide
  config := rfl

end Cli

end Scrawl
