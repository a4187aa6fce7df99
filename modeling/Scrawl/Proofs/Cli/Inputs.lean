import Scrawl.Proofs.Cli.Commands

/-!
# Scrawl.Proofs.Cli.Inputs — files that give no description

Rendering a file and watching it once both fail where there is no text to be read, show no drawing
and leave the disk alone.  What they say about it is told apart by what stands at the path.

* `textOf_eq_error_iff`: a file gives no text exactly if its bytes are those of no text.
* `Misread`: the inputs that are not reported as files that cannot be read.
* `run_unread`: what the program does with an input that gives no text.
-/

namespace Scrawl.Cli

open File (Disk Path)

variable {w : World} {args : List String} {a : Arguments} {c : Config} {name : String} {d : Disk}
  {p : Path} {f : Failure} {bytes : List UInt8}

/-! ### Bytes without a text -/

theorem textOf_eq_error_iff :
    (∃ fault, textOf bytes = .error fault) ↔ ∀ text, bytes ≠ Text.Utf8.encode text := by
  unfold textOf
  cases hdecode : Text.Utf8.decode bytes with
  | ok text =>
    refine iff_of_false (by rintro ⟨fault, h⟩; cases h) fun h => ?_
    exact h text (Text.Utf8.decode_eq_ok_iff.mp hdecode)
  | error fault =>
    refine iff_of_true ⟨fault, rfl⟩ fun text h => ?_
    rw [Text.Utf8.decode_eq_ok_iff.mpr h] at hdecode
    cases hdecode

/-! ### What is said about an input -/

/-- An input that gives no text and is not reported as a file that cannot be read: its path is too
long to be looked for, it is a file of other bytes than those of a text, or there is no name after
which the output could be called. -/
def Misread (a : Arguments) (d : Disk) (p : Path) : Prop :=
  d.find p = .error .nameTooLong ∨ (∃ bytes, d.find p = .ok (.file bytes)) ∨
    (a.command = some .watch ∧ (∃ e, d.find p = .ok e) ∧ p.name = "" ∧ nonempty? a.output = none)

/-- The failure for an input that gives no text. -/
structure ReportsUnread (a : Arguments) (d : Disk) (p : Path) (f : Failure) : Prop where
  asRead : ¬ Misread a d p → f.code = .read ∧ f.exitCode = 4 ∧ f.file = some p.toString
  otherwise : Misread a d p → f.file = none ∧
    (f.code = .write ∧ f.exitCode = 4 ∨ f.code = .internal ∧ f.exitCode = 1)

theorem reportsUnread_notFound {refusal : File.Refusal} (h : d.find p = .error refusal)
    (hrefusal : refusal ≠ .nameTooLong) : ReportsUnread a d p (.notFound p.toString) := by
  refine ⟨fun _ => ⟨rfl, rfl, rfl⟩, fun hmisread => ?_⟩
  unfold Misread at hmisread
  rw [h] at hmisread
  rcases hmisread with hlong | ⟨bytes, hfile⟩ | ⟨-, ⟨e, he⟩, -⟩
  · exact absurd (Except.error.inj hlong) hrefusal
  · cases hfile
  · cases he

theorem reportsUnread_system (h : d.find p = .error .nameTooLong) (message : String) :
    ReportsUnread a d p (.system message none) :=
  ⟨fun hread => absurd (Or.inl h) hread, fun _ => ⟨rfl, Or.inl ⟨rfl, rfl⟩⟩⟩

theorem reportsUnread_internal (h : Misread a d p) (message : String) :
    ReportsUnread a d p (.internal message) :=
  ⟨fun hread => absurd h hread, fun _ => ⟨rfl, Or.inr ⟨rfl, rfl⟩⟩⟩

/-- What stands at the path is a folder or may not be read. -/
theorem reportsUnread_notRead {e : File.Entry} (h : d.find p = .ok e)
    (hfile : ∀ bytes, e ≠ .file bytes)
    (houtput : a.command = some .watch → p.name ≠ "" ∨ nonempty? a.output ≠ none)
    (hint : Option String) : ReportsUnread a d p (.notRead p.toString hint) := by
  refine ⟨fun _ => ⟨rfl, rfl, rfl⟩, fun hmisread => ?_⟩
  unfold Misread at hmisread
  rw [h] at hmisread
  rcases hmisread with hlong | ⟨bytes, hbytes⟩ | ⟨hwatch, -, hname, hnone⟩
  · cases hlong
  · exact absurd (Except.ok.inj hbytes) (hfile bytes)
  · exact ((houtput hwatch).elim (· hname) (· hnone)).elim

/-! ### The commands -/

/-- What is read of an input without a text. -/
theorem read_cases (hfile : ∀ text, d.find p ≠ .ok (.file (Text.Utf8.encode text))) {e : File.Entry}
    (he : d.find p = .ok e) :
    (∃ fault, d.read p = .error fault ∧ ∀ bytes, e ≠ .file bytes) ∨
      ∃ bytes fault, d.read p = .ok bytes ∧ e = .file bytes ∧ textOf bytes = .error fault := by
  unfold Disk.read
  rw [he]
  cases e with
  | folder => exact Or.inl ⟨_, rfl, nofun⟩
  | sealed => exact Or.inl ⟨_, rfl, nofun⟩
  | file bytes =>
    have hbytes : ∀ text, bytes ≠ Text.Utf8.encode text := by
      rintro text rfl
      exact hfile text he
    obtain ⟨fault, hfault⟩ := textOf_eq_error_iff.mpr hbytes
    exact Or.inr ⟨bytes, fault, rfl, rfl, hfault⟩

theorem sourceOfFile_unread (hcommand : a.command = some .render)
    (hfile : ∀ text, d.find p ≠ .ok (.file (Text.Utf8.encode text))) :
    ∃ f, sourceOfFile d p = .error f ∧ ReportsUnread a d p f := by
  unfold sourceOfFile
  rcases d.exists?_cases p with
    ⟨hexists, e, he⟩ | ⟨hexists, refusal, herror, hrefusal⟩ | ⟨hexists, herror⟩
  · rw [hexists]
    rcases read_cases hfile he with ⟨fault, hread, hno⟩ | ⟨bytes, fault, hread, rfl, htext⟩
    · rw [hread]
      refine ⟨_, rfl, reportsUnread_notRead he hno (fun hwatch => ?_) _⟩
      rw [hcommand] at hwatch
      cases hwatch
    · simp only [hread, htext]
      exact ⟨_, rfl, reportsUnread_internal (Or.inr (Or.inl ⟨bytes, he⟩)) _⟩
  · rw [hexists]
    exact ⟨_, rfl, reportsUnread_notFound herror hrefusal⟩
  · rw [hexists]
    exact ⟨_, rfl, reportsUnread_system herror _⟩

/-- The output is called after the input, so an input without a name has none. -/
theorem outputOf_cases (a : Arguments) (p : Path) :
    (∃ output, outputOf a p = .ok output ∧ (p.name ≠ "" ∨ nonempty? a.output ≠ none)) ∨
      ∃ message, outputOf a p = .error (.internal message) ∧ p.name = "" ∧
        nonempty? a.output = none := by
  unfold outputOf
  cases nonempty? a.output with
  | some output => exact Or.inl ⟨_, rfl, Or.inr nofun⟩
  | none =>
    unfold outputFor Path.withSuffix?
    by_cases hname : p.name = ""
    · have hempty : p.name.isEmpty = true := by simp [hname]
      rw [if_pos hempty]
      exact Or.inr ⟨_, rfl, hname, rfl⟩
    · have hempty : ¬ p.name.isEmpty = true := by simpa using hname
      rw [if_neg hempty]
      exact Or.inl ⟨_, rfl, Or.inl hname⟩

theorem watch_unread (verbose : Bool) (h : a.Watches w.environment name c)
    (hp : p = Path.ofString name)
    (hfile : ∀ text, w.disk.find p ≠ .ok (.file (Text.Utf8.encode text))) :
    ∃ log f, watch w a verbose = { stderr := log, disk := w.disk, result := .error f } ∧
      ReportsUnread a w.disk p f ∧
      (log = "" ∨ ∃ cause, log =
        logLine .warning "cli" ("cannot read " ++ p.toString ++ ": " ++ cause)) := by
  have hrange := inRange_of_config h.config
  subst hp
  rcases w.disk.exists?_cases (Path.ofString name) with
    ⟨hexists, e, he⟩ | ⟨hexists, refusal, herror, hrefusal⟩ | ⟨hexists, herror⟩
  · rcases outputOf_cases a (Path.ofString name) with
      ⟨output, houtput, hnamed⟩ | ⟨message, houtput, hname, hnone⟩
    · have hfound : outputBeside w.disk a (Path.ofString name) = .ok output := by
        rw [outputBeside, hexists, houtput]
      rw [watch_of_ok h hfound]
      rcases read_cases hfile he with ⟨fault, hread, hno⟩ | ⟨bytes, fault, hread, rfl, htext⟩
      · rw [lookOnce_unread (a.watching c (Path.ofString name) output verbose) _ hrange hread]
        exact ⟨_, _, rfl, reportsUnread_notRead he hno (fun _ => hnamed) _,
          Or.inr ⟨fault.message, rfl⟩⟩
      · rw [lookOnce_noText (a.watching c (Path.ofString name) output verbose) _ hrange hread htext]
        exact ⟨_, _, rfl, reportsUnread_internal (Or.inr (Or.inl ⟨bytes, he⟩)) _, Or.inl rfl⟩
    · have hfound : outputBeside w.disk a (Path.ofString name) = .error (.internal message) := by
        rw [outputBeside, hexists, houtput]
      rw [watch_of_error h hfound]
      have hmisread : Misread a w.disk (Path.ofString name) :=
        Or.inr (Or.inr ⟨h.command, ⟨e, he⟩, hname, hnone⟩)
      exact ⟨_, _, rfl, reportsUnread_internal hmisread _, Or.inl rfl⟩
  · have hfound : outputBeside w.disk a (Path.ofString name) =
        .error (.notFound (Path.ofString name).toString) := by rw [outputBeside, hexists]
    rw [watch_of_error h hfound]
    exact ⟨_, _, rfl, reportsUnread_notFound herror hrefusal, Or.inl rfl⟩
  · have hfound : ∃ message, outputBeside w.disk a (Path.ofString name) =
        .error (.system message none) := by
      rw [outputBeside, hexists]
      exact ⟨_, rfl⟩
    obtain ⟨message, hfound⟩ := hfound
    rw [watch_of_error h hfound]
    exact ⟨_, _, rfl, reportsUnread_system herror _, Or.inl rfl⟩

/-- **Where an input gives no text**, rendering it and watching it once both fail, show no drawing
and leave the disk as it was.  They say that the file cannot be read, and name it, unless its path
is too long, it is a file of other bytes than those of a text, or it has no name after which the
output of a watch could be called. -/
theorem run_unread (hread : Arguments.read args = .ok a)
    (hcommand : a.Renders w.environment name c ∨ a.Watches w.environment name c)
    (hfile : ∀ text, w.disk.find (Path.ofString name) ≠ .ok (.file (Text.Utf8.encode text))) :
    ∃ log f, run w args =
        { exitCode := f.exitCode, stdout := "", stderr := log ++ f.print a.errorFormat
          disk := w.disk } ∧
      ReportsUnread a w.disk (Path.ofString name) f ∧
      (log = "" ∨ a.command = some .watch ∧ ∃ cause, log = logLine .warning "cli"
        ("cannot read " ++ (Path.ofString name).toString ++ ": " ++ cause)) := by
  rcases hcommand with h | h
  · obtain ⟨f, hsource, hreports⟩ := sourceOfFile_unread h.command hfile
    refine ⟨"", f, ?_, hreports, Or.inl rfl⟩
    rw [run_of_error hread h hsource, String.empty_append]
  · obtain ⟨log, f, hwatch, hreports, hlog⟩ :=
      watch_unread (a.verbose || isDebugging w args) h rfl hfile
    refine ⟨log, f, ?_, hreports, hlog.imp_right fun hcause => ⟨h.command, hcause⟩⟩
    rw [run_of_watch hread h.command, hwatch]
    rfl

/-- A world in which something stands under the name `g`. -/
def worldWith (e : File.Entry) : World := { disk := { entries := [(["g"], e)] } }

theorem run_unread_folder : (run (worldWith .folder) ["render", "g"]).exitCode = 4 ∧
    (run (worldWith .folder) ["render", "g"]).disk = (worldWith .folder).disk := by
  have hfolder : (worldWith .folder).disk.find (Path.ofString "g") = .ok .folder := rfl
  obtain ⟨log, f, hrun, hreports, -⟩ := run_unread (w := worldWith .folder) read_renderSample
    (Or.inl renders_renderSample) (fun text => by rw [hfolder]; nofun)
  have hread : ¬ Misread renderSample (worldWith .folder).disk (Path.ofString "g") := by
    unfold Misread
    rw [hfolder]
    simp [renderSample]
  rw [hrun]
  exact ⟨(hreports.asRead hread).2.1, rfl⟩

/-- Bytes that are those of no text are a failure that is not foreseen. -/
theorem run_noText : (run (worldWith (.file [0xFF])) ["render", "g"]).exitCode = 1 := by
  have hsource : ∃ message, sourceOfFile (worldWith (.file [0xFF])).disk (Path.ofString "g") =
      .error (.internal message) := ⟨_, rfl⟩
  obtain ⟨message, hsource⟩ := hsource
  rw [run_of_error read_renderSample renders_renderSample hsource]
  rfl

end Scrawl.Cli
