import Scrawl.Proofs.Cli.Commands
import Scrawl.Proofs.Rendering

/-!
# Scrawl.Proofs.Cli.Courses — how a rendering and a look of a watch end

A rendering passes the fault of a run on to its caller.  A look has a session run the text, and
tells from the number of the scene that is shown how that went: a fault with a code has been
reported by then, and one without a code is only seen by the missing scene.

* `fails_render`, `render_of_scene`: the end of a rendering.
* `lookOnce_text`: a look runs its text and closes.
* `fails_lookOnce_of_code`, `fails_lookOnce_of_escape`, `fails_lookOnce_of_mount`,
  `lookOnce_of_mounted`: the end of a look.
-/

namespace Scrawl

namespace Live.Session

variable {κ : Type} [DecidableEq κ] {w : Workshop κ} {s : Session Float κ} {v : κ} {text : String}

/-! ### Runs of a session -/

theorem run_of_code {fault : PipelineFault} (hresult : (w.render text).result = .error fault)
    {code : ErrorCode} (hcode : fault.code? = some code) :
    s.run w v text =
      (⟨v, (w.render text).notes, .notRendered code fault⟩, { s with runs := s.runs + 1 }) := by
  unfold run
  dsimp only
  rw [hresult]
  dsimp only
  rw [hcode]

theorem run_of_escape {fault : PipelineFault} (hresult : (w.render text).result = .error fault)
    (hcode : fault.code? = none) :
    s.run w v text =
      (⟨v, (w.render text).notes, .escaped fault⟩, { s with runs := s.runs + 1 }) := by
  unfold run
  dsimp only
  rw [hresult]
  dsimp only
  rw [hcode]

theorem run_of_refusal {scene : Scene} (hresult : (w.render text).result = .ok scene)
    {fault : MountFault} (hmount : w.mount v scene s.disk = .error fault) :
    s.run w v text = (⟨v, (w.render text).notes,
      if fault.isExpected then .notMounted fault else .mountEscaped fault⟩,
      { s with runs := s.runs + 1 }) := by
  unfold run
  dsimp only
  rw [hresult]
  dsimp only
  rw [hmount]
  dsimp only
  split_ifs <;> rfl

theorem run_of_mounted {scene : Scene} (hresult : (w.render text).result = .ok scene)
    {disk : File.Disk} (hmount : w.mount v scene s.disk = .ok disk) :
    s.run w v text = (⟨v, (w.render text).notes, .mounted scene⟩,
      { s with runs := s.runs + 1 }.mounted v scene disk) := by
  unfold run
  dsimp only
  rw [hresult]
  dsimp only
  rw [hmount]

end Live.Session

namespace Cli

open File (Disk Path)
open Live (Session)

variable {w : World} {a : Arguments} {c : Config} {name : String} {verbose : Bool}

/-! ### Replies -/

/-- The program fails and leaves the disk alone: what it writes ends with the failure. -/
structure Reply.Fails (reply : Reply) (f : Failure) (format : Format) (d : Disk) : Prop where
  failed : f.exitCode ≠ 0
  exitCode : reply.exitCode = f.exitCode
  stdout : reply.stdout = ""
  stderr : ∃ log, reply.stderr = log ++ f.print format
  disk : reply.disk = d

/-- The program writes a text to a file. -/
structure Reply.Writes (reply : Reply) (path : Path) (text : String) (d : Disk) : Prop where
  exitCode : reply.exitCode = 0
  stdout : reply.stdout = "Wrote " ++ path.toString ++ "\n"
  disk : d.write path (Text.Utf8.encode text) = .ok reply.disk

theorem fails_of_error {course : Course} {f : Failure} (hfailed : f.exitCode ≠ 0)
    (hresult : course.result = .error f) (hout : course.stdout = "") (format : Format) :
    (course.reply format).Fails f format course.disk := by
  rw [Course.reply, hresult]
  exact ⟨hfailed, rfl, hout, ⟨_, rfl⟩, rfl⟩

theorem fails_at_once {f : Failure} (hfailed : f.exitCode ≠ 0) (d : Disk) (format : Format) :
    (Course.reply { disk := d, result := .error f } format).Fails f format d :=
  fails_of_error hfailed rfl rfl format

/-! ### Failures of a run -/

/-- Neither the code nor the exit code of a fault depends on the file. -/
theorem ofPipeline_file (fault : PipelineFault) (file : Option String) :
    (Failure.ofPipeline fault file).code = (Failure.ofPipeline fault none).code ∧
      (Failure.ofPipeline fault file).exitCode = (Failure.ofPipeline fault none).exitCode ∧
      (Failure.ofPipeline fault none).exitCode ≠ 0 := by
  unfold Failure.ofPipeline
  split <;> exact ⟨rfl, rfl, Nat.succ_ne_zero _⟩

theorem renderFailure_code (fault : PipelineFault) (source : String) :
    (renderFailure fault source).code = (Failure.ofPipeline fault none).code ∧
      (renderFailure fault source).exitCode = (Failure.ofPipeline fault none).exitCode := by
  unfold renderFailure
  split
  · exact ⟨rfl, rfl⟩
  · exact ⟨(ofPipeline_file fault _).1, (ofPipeline_file fault _).2.1⟩
  · exact ⟨rfl, rfl⟩

/-- A number at fault is not foreseen. -/
theorem ofPipeline_number {fault : PipelineFault} (h : fault.IsNumber) :
    Failure.ofPipeline fault none = .internal fault.message := by
  unfold PipelineFault.IsNumber at h
  split at h
  · rfl
  · rfl
  · cases h

/-! ### Settings that all have values -/

theorem runLacking_nil (r : Resources) (c : Config) (text : String) :
    runLacking [] r c text = Pipeline.run r c text := rfl

/-- The settings of a list in which every option has a value are just applied. -/
theorem applyLacking_nil (c : Config) (s : Settings) :
    applyLacking [] c s = (c.apply s).mapError .refused := by
  have hfault : ∀ setting, settingFault? [] (c.overlay s) setting =
      ((c.overlay s).rangeFault? setting).map .refused := fun setting => by
    simp [settingFault?]
  unfold applyLacking
  rw [funext hfault]
  cases hrange : Setting.all.findSome? (c.overlay s).rangeFault? with
  | none =>
    have hnone : (Setting.all.findSome? fun setting =>
        ((c.overlay s).rangeFault? setting).map SettingFault.refused) = none := by
      rw [List.findSome?_eq_none_iff] at hrange ⊢
      exact fun setting hs => by rw [hrange setting hs, Option.map_none]
    rw [hnone]
  | some fault =>
    have hsome : (Setting.all.findSome? fun setting =>
        ((c.overlay s).rangeFault? setting).map SettingFault.refused) = some (.refused fault) := by
      have hmap := congrArg (Option.map SettingFault.refused) hrange
      rwa [List.map_findSome?] at hmap
    rw [hsome, Config.apply]
    dsimp only
    rw [hrange]
    rfl

/-! ### The end of a rendering -/

section Renders

variable {source : Source}

/-- The fault of a run ends a rendering. -/
theorem fails_render (h : a.Renders w.environment name c) (hlacking : a.lacking = [])
    (hsource : sourceOfFile w.disk (Path.ofString name) = .ok source) {fault : PipelineFault}
    (hresult : (Pipeline.run w.resources c source.text).result = .error fault) (format : Format) :
    ((render w a verbose).reply format).Fails (renderFailure fault source.name) format w.disk := by
  have hcourse : render w a verbose =
      { stderr := noteLines verbose (Pipeline.run w.resources c source.text).notes, disk := w.disk
        result := .error (renderFailure fault source.name) } := by
    unfold render
    rw [if_neg (by simpa using h.output), h.config, sourceOf_eq h, hsource, hlacking]
    simp only [bind, Except.bind, pure, Except.pure, runLacking_nil, hresult]
  rw [hcourse]
  refine fails_of_error ?_ rfl rfl format
  rw [(renderFailure_code fault source.name).2]
  exact (ofPipeline_file fault none).2.2

/-- The scene of a run is put out. -/
theorem render_of_scene (h : a.Renders w.environment name c) (hlacking : a.lacking = [])
    (hsource : sourceOfFile w.disk (Path.ofString name) = .ok source) {scene : Scene}
    (hresult : (Pipeline.run w.resources c source.text).result = .ok scene) :
    render w a verbose =
      { putOut a source scene.toSvg w.disk with
        stderr := noteLines verbose (Pipeline.run w.resources c source.text).notes } := by
  unfold render
  rw [if_neg (by simpa using h.output), h.config, sourceOf_eq h, hsource, hlacking]
  simp only [bind, Except.bind, pure, Except.pure, runLacking_nil, hresult]

variable {input target : Path} {svg : String} {d d' : Disk}

/-- A drawing of a file is written to its output. -/
theorem putOut_of_write (hshown : a.toStdout = false) (hpath : source.path = some input)
    (htarget : outputOf a input = .ok target)
    (hwrite : d.write target (Text.Utf8.encode (svg ++ "\n")) = .ok d') :
    putOut a source svg d = { stdout := "Wrote " ++ target.toString ++ "\n", disk := d' } := by
  unfold putOut
  rw [hshown, hpath]
  dsimp only
  rw [htarget]
  dsimp only
  rw [hwrite]

theorem putOut_of_fault (hshown : a.toStdout = false) (hpath : source.path = some input)
    (htarget : outputOf a input = .ok target) {fault : File.Fault}
    (hwrite : d.write target (Text.Utf8.encode (svg ++ "\n")) = .error fault) :
    putOut a source svg d = { disk := d, result := .error (if fault.refusal.isSystem then
      .notWritten target.toString fault else .internal fault.message) } := by
  unfold putOut
  rw [hshown, hpath]
  dsimp only
  rw [htarget]
  dsimp only
  rw [hwrite]

end Renders

/-! ### The end of a look -/

/-- What a look comes to once its text has been run. -/
def Watch.closing (watch : Watch) (ran : Live.Ran Unit) (s : Session Float Unit) : Course :=
  let stderr := watch.lines (s.shown ()).generation ran
  match watch.failure? ran with
  | some f => { stderr, disk := s.disk, result := .ok f.exitCode }
  | none =>
    if (s.shown ()).generation == 0 then
      { stderr, disk := s.disk, result := .error (.notRead watch.input.toString none) }
    else { stdout := "Wrote " ++ watch.output.toString ++ "\n", stderr, disk := s.disk }

/-- A failure that is reported is the last thing that a look writes. -/
theorem fails_closing (watch : Watch) {ran : Live.Ran Unit} {s : Session Float Unit} {f : Failure}
    (hf : watch.failure? ran = some f) (hfailed : f.exitCode ≠ 0) :
    ((watch.closing ran s).reply watch.format).Fails f watch.format s.disk := by
  have hlines (generation : ℕ) :
      ∃ log, watch.lines generation ran = log ++ f.print watch.format := by
    unfold Watch.lines
    rw [hf]
    exact ⟨_, rfl⟩
  unfold Watch.closing
  rw [hf]
  exact ⟨hfailed, rfl, rfl, hlines _, rfl⟩

/-- Where no failure is reported and nothing is shown, the file is said not to be read. -/
theorem fails_closing_unseen (watch : Watch) {ran : Live.Ran Unit} {s : Session Float Unit}
    (hf : watch.failure? ran = none) (hshown : (s.shown ()).generation = 0) :
    ((watch.closing ran s).reply watch.format).Fails (.notRead watch.input.toString none)
      watch.format s.disk := by
  unfold Watch.closing
  rw [hf]
  dsimp only
  rw [hshown]
  exact fails_of_error (Nat.succ_ne_zero _) rfl rfl watch.format

/-- Where a scene is shown, the output has been written. -/
theorem closing_of_shown (watch : Watch) {ran : Live.Ran Unit} {s : Session Float Unit}
    (hf : watch.failure? ran = none) (hshown : (s.shown ()).generation ≠ 0) :
    watch.closing ran s =
      { stdout := "Wrote " ++ watch.output.toString ++ "\n"
        stderr := watch.lines (s.shown ()).generation ran, disk := s.disk } := by
  unfold Watch.closing
  rw [hf]
  dsimp only
  rw [if_neg (by simpa using hshown)]

/-- A look runs the text of its input, and nothing has been shown before. -/
theorem lookOnce_text (watch : Watch) (hrange : watch.config.InRange) {d : Disk}
    {bytes : List UInt8} (hread : d.read watch.input = .ok bytes) {text : String}
    (htext : textOf bytes = .ok text) (r : Resources) :
    ∃ s : Session Float Unit, s.disk = d ∧ s.shown = (fun _ => {}) ∧ watch.lookOnce r d =
      watch.closing (s.run (watch.workshop r) () text).1 (s.run (watch.workshop r) () text).2 := by
  have hdelay : ¬ watch.config.delay < 0.0 := Decimal.not_lt_zero_iff.mpr hrange.delay
  obtain ⟨started, hstart⟩ : ∃ started : Session Float Unit,
      Session.start? watch.config.delay d = .ok started := ⟨_, if_neg hdelay⟩
  have hdisk : started.disk = d := by
    unfold Session.start? at hstart
    rw [if_neg hdelay] at hstart
    cases hstart
    rfl
  obtain ⟨s, hs, hshown, hfinish⟩ :=
    Session.finish_schedule (w := watch.workshop r) hstart () text
  have hlook : watch.look started = .ok ("", started.schedule () text) := by
    simp only [Watch.look, hdisk, hread, htext]
  refine ⟨s, hs, hshown, ?_⟩
  unfold Watch.lookOnce
  rw [hstart]
  dsimp only
  rw [hlook]
  dsimp only
  rw [hfinish]
  unfold Watch.closing
  cases hfailure : watch.failure? (s.run (watch.workshop r) () text).1 with
  | none => simp [hfailure]
  | some f => simp [hfailure]

section Looks

variable (watch : Watch) {r : Resources} {d : Disk} {bytes : List UInt8} {text : String}
  (hrange : watch.config.InRange) (hread : d.read watch.input = .ok bytes)
  (htext : textOf bytes = .ok text)

include hrange hread htext

/-- A fault with a code is reported as it comes. -/
theorem fails_lookOnce_of_code {fault : PipelineFault}
    (hresult : (runLacking watch.lacking r watch.config text).result = .error fault)
    {code : ErrorCode} (hcode : fault.code? = some code) :
    ((watch.lookOnce r d).reply watch.format).Fails
      (.ofPipeline fault (some watch.input.toString)) watch.format d := by
  obtain ⟨s, rfl, -, hcourse⟩ := lookOnce_text watch hrange hread htext r
  rw [hcourse, Session.run_of_code hresult hcode]
  obtain ⟨-, hexit, hfailed⟩ := ofPipeline_file fault (some watch.input.toString)
  exact fails_closing watch rfl (by rwa [hexit])

/-- A fault without a code is not reported, but nothing is shown. -/
theorem fails_lookOnce_of_escape {fault : PipelineFault}
    (hresult : (runLacking watch.lacking r watch.config text).result = .error fault)
    (hcode : fault.code? = none) :
    ((watch.lookOnce r d).reply watch.format).Fails (.notRead watch.input.toString none)
      watch.format d := by
  obtain ⟨s, rfl, hshown, hcourse⟩ := lookOnce_text watch hrange hread htext r
  rw [hcourse, Session.run_of_escape hresult hcode]
  refine fails_closing_unseen watch rfl ?_
  dsimp only
  rw [hshown]

variable {scene : Scene}
  (hresult : (runLacking watch.lacking r watch.config text).result = .ok scene)

include hresult

/-- A scene that is not mounted is reported if the file system is at fault. -/
theorem fails_lookOnce_of_mount {fault : File.Fault}
    (hswap : (File.swap {} d watch.output (Text.Utf8.encode (Live.Mount.fileText scene))).fault =
      some fault) :
    ((watch.lookOnce r d).reply watch.format).Fails
      (if fault.refusal.isSystem then .ofMount (.disk fault) (some watch.input.toString)
        else .notRead watch.input.toString none) watch.format d := by
  obtain ⟨s, rfl, hshown, hcourse⟩ := lookOnce_text watch hrange hread htext r
  have hmount : (watch.workshop r).mount () scene s.disk = .error (.disk fault) := by
    simp only [Watch.workshop, Live.Mount.file, hswap]
  rw [hcourse, Session.run_of_refusal hresult hmount]
  cases hsystem : fault.refusal.isSystem with
  | true =>
    have hexpected : (Live.MountFault.disk fault).isExpected = true := hsystem
    rw [if_pos hexpected, if_pos rfl]
    exact fails_closing watch rfl (Nat.succ_ne_zero _)
  | false =>
    have hexpected : ¬ (Live.MountFault.disk fault).isExpected = true := by
      simpa [Live.MountFault.isExpected] using hsystem
    rw [if_neg hexpected, if_neg Bool.false_ne_true]
    refine fails_closing_unseen watch rfl ?_
    dsimp only
    rw [hshown]

/-- A scene that is mounted has been written. -/
theorem lookOnce_of_mounted
    (hswap : (File.swap {} d watch.output (Text.Utf8.encode (Live.Mount.fileText scene))).fault =
      none) :
    ∃ log, watch.lookOnce r d =
      { stdout := "Wrote " ++ watch.output.toString ++ "\n", stderr := log
        disk := (File.swap {} d watch.output
          (Text.Utf8.encode (Live.Mount.fileText scene))).disk d } := by
  obtain ⟨s, rfl, hshown, hcourse⟩ := lookOnce_text watch hrange hread htext r
  have hmount : (watch.workshop r).mount () scene s.disk =
      .ok ((File.swap {} s.disk watch.output (Text.Utf8.encode (Live.Mount.fileText scene))).disk
        s.disk) := by
    simp only [Watch.workshop, Live.Mount.file, hswap]
  rw [hcourse, Session.run_of_mounted hresult hmount]
  refine ⟨_, closing_of_shown watch rfl ?_⟩
  simp [Session.mounted]

end Looks

end Cli

end Scrawl
