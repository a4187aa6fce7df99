import Scrawl.Proofs.Cli.Courses
import Scrawl.Proofs.Text.Json

/-!
# Scrawl.Proofs.Cli.Formats — failures as objects on one line

With the format of objects a failure is one line that holds one object with its code.  A rendering
writes nothing else; a look may have logged a line before.  A list that is refused is judged by its
first full spelling of the option, so another spelling does not count there.

* `isLine_print`: a failure as one line.
* `render_quiet`, `watch_quiet`: what the commands write when they fail.
* `formatBefore_eq_json_iff`: what is told of a list before it is read.
* `run_json`: what the program writes when it fails.
-/

namespace Scrawl.Cli

open File (Disk Path)
open Live (Session)

variable {w : World} {args : List String} {a : Arguments} {format : Format}

/-! ### Lines -/

/-- A text is one line of ASCII that holds one object, and the object is that of the failure. -/
structure IsLine (text : String) (f : Failure) : Prop where
  line : ∃ line : String, text = line ++ "\n" ∧ (∀ c ∈ line.toList, Text.Json.IsShown c) ∧
    Text.Json.read? line = some f.fields
  code : f.fields.lookup "code" = some (.string f.code.name)

theorem isLine_print (f : Failure) : IsLine (f.print .json) f where
  line := ⟨Text.Json.object f.fields, rfl, Text.Json.isShown_object f.fields,
    Text.Json.read?_object f.fields⟩
  code := rfl

/-- What is logged before a failure: nothing, or one entry. -/
def IsLog (log : String) : Prop :=
  log = "" ∨ ∃ level source message, log = logLine level source message

/-- The program ends well, or it shows a failure behind what it has logged. -/
def Reply.Shows (reply : Reply) (format : Format) (log : String) : Prop :=
  reply.exitCode = 0 ∨
    ∃ f : Failure, reply.exitCode = f.exitCode ∧ reply.stderr = log ++ f.print format

/-! ### Renderings -/

/-- A course ends well or with a failure that is still to be shown. -/
def Course.Ends (course : Course) : Prop :=
  course.result = .ok 0 ∨ ∃ f, course.result = .error f

theorem shows_of_ends {course : Course} (h : course.Ends) (format : Format) :
    (course.reply format).Shows format course.stderr := by
  unfold Course.reply
  rcases h with h | ⟨f, h⟩
  · rw [h]
    exact Or.inl rfl
  · rw [h]
    exact Or.inr ⟨f, rfl, rfl⟩

theorem ends_putOut (a : Arguments) (source : Source) (svg : String) (d : Disk) :
    (putOut a source svg d).Ends := by
  unfold putOut
  dsimp only
  split
  · exact Or.inl rfl
  · cases outputOf a _ with
    | error f => exact Or.inr ⟨f, rfl⟩
    | ok path =>
      dsimp only
      cases d.write path _ with
      | error fault => exact Or.inr ⟨_, rfl⟩
      | ok d => exact Or.inl rfl
  · split
    · cases d.write _ _ with
      | error fault => exact Or.inr ⟨_, rfl⟩
      | ok d => exact Or.inl rfl
    · exact Or.inl rfl

/-- A rendering that is not asked for its log shows its failure and nothing else. -/
theorem render_quiet (w : World) (a : Arguments) (format : Format) :
    ((render w a false).reply format).Shows format "" := by
  have hends : (render w a false).stderr = "" ∧ (render w a false).Ends := by
    unfold render
    split_ifs
    · exact ⟨rfl, Or.inr ⟨_, rfl⟩⟩
    · dsimp only
      split
      · exact ⟨rfl, Or.inr ⟨_, rfl⟩⟩
      · split
        · exact ⟨rfl, Or.inr ⟨_, rfl⟩⟩
        · exact ⟨rfl, ends_putOut a _ _ w.disk⟩
  have hshows := shows_of_ends hends.2 format
  rwa [hends.1] at hshows

/-! ### Looks -/

/-- The watch that the arguments ask for has their format and a configuration in range. -/
theorem watchOf_ok {verbose : Bool} {watch : Watch} (h : watchOf w a verbose = .ok watch) :
    watch.config.InRange ∧ watch.format = a.errorFormat ∧ watch.verbose = verbose := by
  unfold watchOf at h
  simp only [bind, Except.bind] at h
  split_ifs at h
  cases hconfig : a.config w.environment with
  | error f =>
    rw [hconfig] at h
    cases h
  | ok c =>
    rw [hconfig] at h
    dsimp only at h
    split at h
    · cases h
    · cases h
    · cases houtput : outputOf a (Path.ofString (a.input.getD "")) with
      | error f =>
        rw [houtput] at h
        cases h
      | ok output =>
        rw [houtput] at h
        cases h
        exact ⟨inRange_of_config hconfig, rfl, rfl⟩

/-- A look that is not asked for its log writes one entry for a run that fails, and its failure. -/
theorem lines_quiet {watch : Watch} (hquiet : watch.verbose = false) (generation : ℕ)
    (ran : Live.Ran Unit) : ∃ log, IsLog log ∧
      (∀ f, watch.failure? ran = some f →
        watch.lines generation ran = log ++ f.print watch.format) ∧
      (watch.failure? ran = none → watch.lines generation ran = log) := by
  have hnotes : noteLines watch.verbose ran.notes = "" := by rw [hquiet]; rfl
  have hentry : ∃ log, IsLog log ∧ watch.lines generation ran = log ++
      ((watch.failure? ran).map (·.print watch.format)).getD "" := by
    unfold Watch.lines
    rw [hnotes, hquiet]
    cases ran.outcome.log? with
    | none =>
      refine ⟨"", Or.inl rfl, ?_⟩
      cases watch.failure? ran <;> cases ran.outcome <;> rfl
    | some entry =>
      refine ⟨logLine entry.1 "scheduler" entry.2, Or.inr ⟨_, _, _, rfl⟩, ?_⟩
      cases watch.failure? ran <;> cases ran.outcome <;> simp
  obtain ⟨log, hlog, hlines⟩ := hentry
  refine ⟨log, hlog, fun f hf => ?_, fun hnone => ?_⟩
  · rw [hlines, hf]
    rfl
  · rw [hlines, hnone]
    exact String.append_empty

theorem closing_quiet {watch : Watch} (hquiet : watch.verbose = false) (ran : Live.Ran Unit)
    (s : Session Float Unit) : ∃ log, IsLog log ∧
      ((watch.closing ran s).reply watch.format).Shows watch.format log := by
  obtain ⟨log, hlog, hreported, hsilent⟩ := lines_quiet hquiet (s.shown ()).generation ran
  refine ⟨log, hlog, ?_⟩
  unfold Watch.closing
  cases hf : watch.failure? ran with
  | some f => exact Or.inr ⟨f, rfl, hreported f hf⟩
  | none =>
    dsimp only
    rw [hsilent hf]
    split_ifs
    · exact Or.inr ⟨_, rfl, rfl⟩
    · exact Or.inl rfl

/-- A look that is not asked for its log shows its failure behind one entry at most. -/
theorem watch_quiet (w : World) (a : Arguments) : ∃ log, IsLog log ∧
    ((watch w a false).reply a.errorFormat).Shows a.errorFormat log := by
  unfold watch
  cases hwatch : watchOf w a false with
  | error f => exact ⟨"", Or.inl rfl, shows_of_ends (Or.inr ⟨f, rfl⟩) _⟩
  | ok watch =>
    obtain ⟨hrange, hformat, hquiet⟩ := watchOf_ok hwatch
    dsimp only
    cases hread : w.disk.read watch.input with
    | error fault =>
      rw [lookOnce_unread watch _ hrange hread]
      exact ⟨_, Or.inr ⟨_, _, _, rfl⟩, shows_of_ends (Or.inr ⟨_, rfl⟩) _⟩
    | ok bytes =>
      cases htext : textOf bytes with
      | error fault =>
        rw [lookOnce_noText watch _ hrange hread htext]
        exact ⟨"", Or.inl rfl, shows_of_ends (Or.inr ⟨_, rfl⟩) _⟩
      | ok text =>
        obtain ⟨s, -, -, hcourse⟩ := lookOnce_text watch hrange hread htext w.resources
        rw [hcourse, ← hformat]
        exact closing_quiet hquiet _ _

/-! ### Lists that are refused -/

/-- The first full spelling of the option is followed by the name of the format. -/
def JsonFirst (args : List String) : Prop :=
  ∃ front rest, args = front ++ "--error-format" :: "json" :: rest ∧ "--error-format" ∉ front

/-- **What is told of a list before it is read** goes by the first full spelling of the option. -/
theorem formatBefore_eq_json_iff : formatBefore args = .json ↔ JsonFirst args := by
  unfold formatBefore
  constructor
  · intro h
    split at h
    · next spelling name rest hdrop =>
      split_ifs at h with hname
      have hspelling : spelling = "--error-format" := by
        have hhead := List.head?_dropWhile_not (· != "--error-format") args
        rw [hdrop] at hhead
        simpa using hhead
      have hfront := List.takeWhile_append_dropWhile (p := (· != "--error-format")) (l := args)
      refine ⟨args.takeWhile (· != "--error-format"), rest, ?_, fun hmem => ?_⟩
      · rw [hdrop, hspelling, beq_iff_eq.mp hname] at hfront
        exact hfront.symm
      · simpa using List.mem_takeWhile_imp hmem
    · cases h
  · rintro ⟨front, rest, rfl, hfront⟩
    have hall : ∀ s ∈ front, (s != "--error-format") = true := fun s hs => by
      rw [bne_iff_ne]
      rintro rfl
      exact hfront hs
    rw [List.dropWhile_append_of_pos hall]
    rfl

/-- A list that is refused is reported in the format that can be told before it is read. -/
theorem run_of_refused {fault : ArgumentFault}
    (hread : Arguments.read args = .error (.fault fault)) : ∃ hint,
      run w args =
        { exitCode := 2, disk := w.disk
          stderr := (Failure.arguments fault.message hint).print (formatBefore args) } := by
  refine ⟨"Use subcommands: render, watch, grammar, example.", ?_⟩
  cases args with
  | nil =>
    rw [read_nil] at hread
    cases hread
  | cons arg args =>
    unfold run
    rw [hread]
    simp [Course.reply, Failure.arguments]

/-! ### The program -/

/-- The commands that are not asked for their log show a failure behind one entry of a look at
most. -/
theorem runCommand_quiet (w : World) (a : Arguments) : ∃ log, IsLog log ∧
    (a.command ≠ some .watch → log = "") ∧
    ((runCommand w a false).reply a.errorFormat).Shows a.errorFormat log := by
  unfold runCommand
  cases a.command with
  | none => exact ⟨"", Or.inl rfl, fun _ => rfl, shows_of_ends (Or.inr ⟨_, rfl⟩) _⟩
  | some command =>
    cases command with
    | render => exact ⟨"", Or.inl rfl, fun _ => rfl, render_quiet w a _⟩
    | watch =>
      obtain ⟨log, hlog, hshows⟩ := watch_quiet w a
      exact ⟨log, hlog, fun hne => absurd rfl hne, hshows⟩
    | grammar => exact ⟨"", Or.inl rfl, fun _ => rfl, Or.inl rfl⟩
    | sample => exact ⟨"", Or.inl rfl, fun _ => rfl, Or.inl rfl⟩

/-- **With the format of objects a failure is one line that holds one object** with its code, unless
the whole log is asked for.  If the list is read, nothing else is written but one entry of the log
of a look.  If it is refused, the failure is such a line exactly if the name of the format follows
the first full spelling of the option. -/
theorem run_json (hdebug : isDebugging w args = false) :
    (∀ a, Arguments.read args = .ok a → a.errorFormat = .json → a.verbose = false →
      (run w args).exitCode ≠ 0 → ∃ log f text, (run w args).stderr = log ++ text ∧
        IsLine text f ∧ (run w args).exitCode = f.exitCode ∧ IsLog log ∧
        (a.command ≠ some .watch → log = "")) ∧
    ∀ fault, Arguments.read args = .error (.fault fault) →
      ∃ f : Failure, f.code = .arguments ∧ f.message = fault.message ∧
        (run w args).exitCode = 2 ∧ (JsonFirst args → IsLine (run w args).stderr f) ∧
        (¬ JsonFirst args → (run w args).stderr = f.print .text) := by
  refine ⟨fun a hread hjson hquiet hfails => ?_, fun fault hread => ?_⟩
  · obtain ⟨log, hlog, hcommand, hshows⟩ := runCommand_quiet w a
    have hne : args ≠ [] := by
      rintro rfl
      rw [read_nil] at hread
      cases hread
      cases hjson
    have hrun : run w args = (runCommand w a false).reply a.errorFormat := by
      rw [run_of_read hread hne, hquiet, hdebug, Bool.or_false]
    rw [← hrun, hjson] at hshows
    obtain ⟨f, hexit, hstderr⟩ := hshows.resolve_left hfails
    exact ⟨log, f, _, hstderr, isLine_print f, hexit, hlog, hcommand⟩
  · obtain ⟨hint, hrun⟩ := run_of_refused (w := w) hread
    rw [hrun]
    refine ⟨.arguments fault.message hint, rfl, rfl, rfl, fun hfirst => ?_, fun hfirst => ?_⟩
    · rw [formatBefore_eq_json_iff.mpr hfirst]
      exact isLine_print _
    · have htext : formatBefore args = .text := by
        cases hformat : formatBefore args with
        | text => rfl
        | json => exact absurd (formatBefore_eq_json_iff.mp hformat) hfirst
      rw [htext]

/-- A file that is not there is reported by one line. -/
theorem run_json_missing : ∃ f,
    IsLine (run {} ["--error-format", "json", "render", "g"]).stderr f ∧ f.exitCode = 4 := by
  have hlevel (r : Reading) : readLevel none r ["--error-format", "json", "render", "g"] =
      .ok ({ arguments := { r.arguments with
        errorFormat := .json, valueless := r.arguments.valueless.filter (· != .errorFormat) }
             extras := r.extras }, ["render", "g"]) := by cbv
  have hcommand (r : Reading) : readCommand r ["render", "g"] =
      .ok { r with arguments := { r.arguments with command := some .render, input := some "g" }
                   hasInput := true } := by cbv
  have hread : Arguments.read ["--error-format", "json", "render", "g"] =
      .ok { renderSample with errorFormat := .json } := by
    simp only [Arguments.read, hlevel, hcommand, bind, Except.bind]
    rfl
  have hrenders : Arguments.Renders { renderSample with errorFormat := .json } (fun _ => none)
      "g" {} :=
    ⟨rfl, rfl, by decide, rfl, by decide, rfl⟩
  have hrun := run_of_error (w := {}) hread hrenders (f := .notFound "g") rfl
  have hexit : (run {} ["--error-format", "json", "render", "g"]).exitCode = 4 := by
    rw [hrun]
    rfl
  have hdebug : isDebugging {} ["--error-format", "json", "render", "g"] = false := by decide
  obtain ⟨log, f, text, hstderr, hline, hcode, -, hlog⟩ :=
    (run_json hdebug).1 _ hread rfl rfl (by rw [hexit]; decide)
  rw [hlog (by decide), String.empty_append] at hstderr
  rw [hexit] at hcode
  exact ⟨f, hstderr ▸ hline, hcode.symm⟩

theorem not_isLine_text {f g : Failure} : ¬ IsLine (f.print .text) g := by
  rintro ⟨⟨line, htext, -, hread⟩, -⟩
  have hchars := congrArg String.toList htext
  obtain ⟨cs, hcs⟩ : ∃ cs, (f.print .text).toList = 'e' :: cs := by
    rw [Failure.print]
    simp
  rw [hcs, String.toList_append] at hchars
  have hline : ∃ rest, line.toList = 'e' :: rest := by
    cases hl : line.toList with
    | nil =>
      rw [hl] at hchars
      cases hchars
    | cons c rest =>
      rw [hl] at hchars
      cases hchars
      exact ⟨rest, rfl⟩
  obtain ⟨rest, hline⟩ := hline
  unfold Text.Json.read? at hread
  rw [hline] at hread
  cases hread

/-- The format may be asked for by a mark behind the option, and then a list that is refused is
reported in the other one. -/
theorem run_marked :
    (∃ r, readLevel none {} ["--error-format=json", "x"] = .ok (r, ["x"]) ∧
      r.arguments.errorFormat = .json ∧ r.arguments.verbose = false) ∧
    isDebugging {} ["--error-format=json", "x"] = false ∧
    (run {} ["--error-format=json", "x"]).exitCode = 2 ∧
    ∀ f, ¬ IsLine (run {} ["--error-format=json", "x"]).stderr f := by
  have hwords : readWords (spellings (Command.options none)) ["--error-format=json", "x"] =
      .ok [.option "--error-format=json"
        (some ⟨.errorFormat, "--error-format", some ['j', 's', 'o', 'n']⟩), .plain "x"] := rfl
  have hscan (r : Reading) : scan none r [.option "--error-format=json"
      (some ⟨.errorFormat, "--error-format", some ['j', 's', 'o', 'n']⟩), .plain "x"] =
      .ok ({ r with arguments := { r.arguments with
        errorFormat := .json
        valueless := r.arguments.valueless.filter (· != .errorFormat) } }, ["x"]) := by cbv
  have hlevel : ∃ r, readLevel none {} ["--error-format=json", "x"] = .ok (r, ["x"]) ∧
      r.arguments.errorFormat = .json ∧ r.arguments.verbose = false := by
    unfold readLevel
    rw [hwords]
    dsimp only
    rw [hscan]
    exact ⟨_, rfl, rfl, rfl⟩
  have hread : Arguments.read ["--error-format=json", "x"] =
      .error (.fault (.noCommand "x")) := by
    obtain ⟨r, hr, -⟩ := hlevel
    rw [Arguments.read, hr]
    rfl
  obtain ⟨hint, hrun⟩ := run_of_refused (w := {}) hread
  have hbefore : formatBefore ["--error-format=json", "x"] = .text := by decide
  refine ⟨hlevel, by decide, by rw [hrun], fun f => ?_⟩
  rw [hrun, hbefore]
  exact not_isLine_text

end Scrawl.Cli
