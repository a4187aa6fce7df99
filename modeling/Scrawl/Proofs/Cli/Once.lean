import Scrawl.Proofs.Cli.Courses
import Scrawl.Proofs.Live.FileSurface
import Scrawl.Proofs.Scene.Runs

/-!
# Scrawl.Proofs.Cli.Once — a rendering and one look of a watch

To render a file and to watch it for one look come to the same with the same options: both fail with
one code and leave the disk alone, or both write the same text to the output.  They come apart where
a look does not see why nothing is shown, because a number or a zero character is at fault, and
where there is room for the output but none for the temporary file beside it.

* `SameRendering.config`: the options are refused alike or give the same settings.
* `agree_of_not_apart`, `exitCode_of_apart`: the two cases.
* `run_once`: rendering and watching once come apart in these cases and in no other.
-/

namespace Scrawl.Cli

open File (Disk Path)

/-! ### Paths of outputs -/

section Outputs

variable {a : Arguments} {p target : Path}

theorem part_ne_empty (s : String) : "" ∉ (Path.ofString s).parts := by
  intro h
  have hne := (List.mem_filter.mp h).2
  simp at hne

/-- The path of an output has no empty component. -/
theorem part_ne_empty_of_outputOf (hp : "" ∉ p.parts) (h : outputOf a p = .ok target) :
    "" ∉ target.parts := by
  unfold outputOf at h
  split at h
  · cases h
    exact part_ne_empty _
  · unfold outputFor Path.withSuffix? at h
    split_ifs at h
    cases h
    intro hmem
    rcases List.mem_append.mp hmem with hmem | hmem
    · exact hp (List.dropLast_subset _ hmem)
    · have hsuffix := (String.append_eq_empty_iff.mp (List.mem_singleton.mp hmem).symm).2
      exact absurd hsuffix (by decide)

end Outputs

/-! ### Texts of files -/

/-- A text with its line ends unified. -/
def unified (content : String) : String := String.ofList (Text.unifyNewlines content.toList)

theorem textOf_encode (content : String) :
    textOf (Text.Utf8.encode content) = .ok (unified content) := by
  rw [textOf, Text.Utf8.decode_eq_ok_iff.mpr rfl]
  rfl

section Sources

variable {d : Disk} {p : Path} {content : String}
  (hfile : d.find p = .ok (.file (Text.Utf8.encode content)))

include hfile

theorem read_of_file : d.read p = .ok (Text.Utf8.encode content) := by
  rw [Disk.read, hfile]

theorem exists?_of_file : d.exists? p = .ok true := by
  rw [Disk.exists?, hfile]

theorem sourceOfFile_of_file :
    sourceOfFile d p = .ok ⟨unified content, p.toString, some p⟩ := by
  unfold sourceOfFile
  simp only [exists?_of_file hfile, read_of_file hfile, textOf_encode]

end Sources

/-- A file does not stand where no path leads to. -/
theorem name_ne_empty {d : Disk} {name : String} {bytes : List UInt8}
    (h : d.find (Path.ofString name) = .ok (.file bytes)) : name ≠ "" := by
  rintro rfl
  have hhome : d.find (Path.ofString "") = .ok .folder := by
    have hplace : d.place (Path.ofString "") = .ok d.home := rfl
    have hentry : d.entry? d.home = some .folder :=
      if_pos (List.isPrefixOf_iff_prefix.mpr (List.prefix_refl _))
    rw [File.find_of_place hplace, hentry]
  rw [hhome] at h
  cases h

/-! ### The same rendering -/

/-- Two lists of arguments ask for the same rendering of a file to the same output with the builtin
engine: the first for one rendering, the second for one look of a watch, which may have a delay. -/
structure SameRendering (a b : Arguments) (environment : String → Option String) (name : String)
    (target : Path) : Prop where
  renders : a.command = some .render
  watches : b.command = some .watch
  input : a.input = some name ∧ b.input = some name
  output : a.output = b.output
  target : outputOf a (Path.ofString name) = .ok target
  text : a.text = none
  toStdout : a.toStdout = false
  once : b.once
  polls : ¬ b.poll ≤ 0.0
  valued : a.valueless = [] ∧ b.valueless = []
  settings : a.settings = { b.settings with delay := none }
  noSeed : a.noSeed = b.noSeed
  delay : ∀ x ∈ b.settings.delay, 0.0 ≤ x
  builtin : ∀ c, a.config environment = .ok c → c.engine = .builtin
  finite : ∀ c, b.config environment = .ok c → c.delay.isFinite

section Settings

variable {a b : Arguments} {environment : String → Option String} {name : String} {target : Path}
  {outer : Config}

/-! ### Options that are refused -/

theorem config_of_environment {fault : ConfigFault}
    (h : Config.ofEnvironment environment = .error fault) :
    ∃ message hint, a.config environment = .error (.arguments message hint) := by
  unfold Arguments.config
  rw [h]
  exact ⟨_, _, rfl⟩

theorem config_of_apply (hvalued : a.valueless = [])
    (houter : Config.ofEnvironment environment = .ok outer) :
    (∀ c, outer.apply a.settings = .ok c →
      a.config environment = .ok (if a.noSeed then { c with seed := none } else c)) ∧
    ∀ fault, outer.apply a.settings = .error fault →
      ∃ message hint, a.config environment = .error (.arguments message hint) := by
  have hlacking : a.lacking = [] := by rw [Arguments.lacking, hvalued, List.filterMap_nil]
  unfold Arguments.config
  rw [houter, hlacking]
  simp only [Except.mapError, bind, Except.bind, applyLacking_nil]
  refine ⟨fun c hc => ?_, fun fault hfault => ?_⟩
  · rw [hc]
  · rw [hfault]
    exact ⟨_, _, rfl⟩

namespace SameRendering

variable (h : SameRendering a b environment name target)

include h

/-- The delay does not matter to the options of the rendering. -/
theorem accepts_iff (houter : outer.InRange) :
    outer.Accepts a.settings ↔ outer.Accepts b.settings := by
  have hdelay : (b.settings.delay.getD outer.delay).isNaN ∨
      0.0 ≤ b.settings.delay.getD outer.delay := by
    cases hb : b.settings.delay with
    | none => exact houter.delay
    | some x => exact Or.inr (h.delay x hb)
  rw [h.settings]
  refine ⟨fun ha => ?_, fun hb => ?_⟩
  · exact ⟨⟨ha.inRange.sketchiness, hdelay, ha.inRange.padding, ha.inRange.margin,
      ha.inRange.fontSize⟩, ha.engine⟩
  · exact ⟨⟨hb.inRange.sketchiness, houter.delay, hb.inRange.padding, hb.inRange.margin,
      hb.inRange.fontSize⟩, hb.engine⟩

/-- **The options are refused alike**, or they give the same configuration, but for the delay. -/
theorem config : (∃ c d, a.config environment = .ok c ∧ b.config environment = .ok d ∧
      c = { d with delay := c.delay }) ∨
    ∃ message hint message' hint', a.config environment = .error (.arguments message hint) ∧
      b.config environment = .error (.arguments message' hint') := by
  cases houter : Config.ofEnvironment environment with
  | error fault =>
    obtain ⟨message, hint, ha⟩ := config_of_environment (a := a) houter
    obtain ⟨message', hint', hb⟩ := config_of_environment (a := b) houter
    exact Or.inr ⟨message, hint, message', hint', ha, hb⟩
  | ok outer =>
    obtain ⟨haccepted, hrefused⟩ := config_of_apply h.valued.1 houter
    obtain ⟨haccepted', hrefused'⟩ := config_of_apply h.valued.2 houter
    have hiff := h.accepts_iff (Config.inRange_of_obtained (.ofEnvironment houter))
    by_cases ha : outer.Accepts a.settings
    · have hc := haccepted _ (Config.apply_eq_ok_iff.mpr ⟨ha, rfl⟩)
      have hd := haccepted' _ (Config.apply_eq_ok_iff.mpr ⟨hiff.mp ha, rfl⟩)
      refine Or.inl ⟨_, _, hc, hd, ?_⟩
      rw [h.settings, h.noSeed]
      split_ifs <;> rfl
    · obtain ⟨fault, hfault⟩ := Config.apply_of_not_accepts ha
      obtain ⟨fault', hfault'⟩ := Config.apply_of_not_accepts (mt hiff.mpr ha)
      obtain ⟨message, hint, ha⟩ := hrefused fault hfault
      obtain ⟨message', hint', hb⟩ := hrefused' fault' hfault'
      exact Or.inr ⟨message, hint, message', hint', ha, hb⟩

theorem renders_of_config {d : Disk} {bytes : List UInt8}
    (hfile : d.find (Path.ofString name) = .ok (.file bytes)) {c : Config}
    (hc : a.config environment = .ok c) : a.Renders environment name c where
  command := h.renders
  input := h.input.1
  named := name_ne_empty hfile
  text := h.text
  output := by simp [h.toStdout]
  config := hc

theorem watches_of_config {c : Config} (hc : b.config environment = .ok c) :
    b.Watches environment name c where
  command := h.watches
  input := h.input.2
  once := h.once
  polls := ⟨by simp [h.valued.2], h.polls⟩
  config := hc

end SameRendering

end Settings

/-! ### What the two commands come to -/

/-- Both fail with one code and leave the disk alone, or both write the same text to the output. -/
inductive Agree (d : Disk) (target : Path) (format format' : Format) (first second : Reply) : Prop
  | failed {f g : Failure} (code : f.code = g.code) (exitCode : f.exitCode = g.exitCode)
      (fails : first.Fails f format d) (fails' : second.Fails g format' d)
  | written {text : String} (writes : first.Writes target text d)
      (writes' : second.Writes target text d) (content : ∀ reply ∈ [first, second],
        reply.disk.find target = .ok (.file (Text.Utf8.encode text)))

/-- What keeps a rendering and a look apart. -/
inductive Apart (w : World) (a : Arguments) (target : Path) (text : String) : Prop
  /-- A number is at fault, and a look does not report that. -/
  | number {c : Config} {fault : PipelineFault} (config : a.config w.environment = .ok c)
      (result : (Pipeline.run w.resources c text).result = .error fault) (number : fault.IsNumber)
  /-- There is a zero character in the path of the output, and a look does not report that. -/
  | zero {c : Config} {scene : Scene} (config : a.config w.environment = .ok c)
      (result : (Pipeline.run w.resources c text).result = .ok scene)
      (zero : Disk.pathFault? target = some .zeroCharacter)
  /-- There is no room for the temporary file, and a rendering needs none. -/
  | noRoom {c : Config} {scene : Scene} {folder last : File.Place}
      (config : a.config w.environment = .ok c)
      (result : (Pipeline.run w.resources c text).result = .ok scene)
      (long : File.NoRoom w.disk target folder last)

section Commands

variable {w : World} {a b : Arguments} {name content : String} {target : Path}
  {args args' : List String}

variable (verbose verbose' : Bool) {c d : Config} {scene : Scene} {fault : PipelineFault}
  (h : SameRendering a b w.environment name target)

include h

/-- The delay does not matter to a run. -/
theorem runLacking_of_config (hc : a.config w.environment = .ok c)
    (hd : b.config w.environment = .ok d) : runLacking b.lacking w.resources d (unified content) =
      Pipeline.run w.resources c (unified content) := by
  rw [Arguments.lacking, h.valued.2, List.filterMap_nil, runLacking_nil]
  rcases h.config with ⟨c', d', hc', hd', hsame⟩ | ⟨message, hint, message', hint', hc', hd'⟩
  · obtain rfl : c = c' := Except.ok.inj (hc.symm.trans hc')
    obtain rfl : d = d' := Except.ok.inj (hd.symm.trans hd')
    rw [hsame]
    rfl
  · rw [hc] at hc'
    cases hc'

variable (hfile : w.disk.find (Path.ofString name) = .ok (.file (Text.Utf8.encode content)))
  (hc : a.config w.environment = .ok c)

include hfile hc

/-- The fault of a run ends a rendering. -/
theorem fails_render_of_fault
    (hresult : (Pipeline.run w.resources c (unified content)).result = .error fault) :
    ((render w a verbose).reply a.errorFormat).Fails
      (renderFailure fault (Path.ofString name).toString) a.errorFormat w.disk := by
  have hlacking : a.lacking = [] := by rw [Arguments.lacking, h.valued.1, List.filterMap_nil]
  exact fails_render (h.renders_of_config hfile hc) hlacking (sourceOfFile_of_file hfile) hresult _

/-- The scene of a run is written in place by a rendering. -/
theorem render_of_config
    (hresult : (Pipeline.run w.resources c (unified content)).result = .ok scene) :
    (∀ disk, w.disk.write target (Text.Utf8.encode (scene.toSvg ++ "\n")) = .ok disk →
      ((render w a verbose).reply a.errorFormat).Writes target (scene.toSvg ++ "\n") w.disk ∧
      ((render w a verbose).reply a.errorFormat).disk = disk) ∧
    ∀ fault, w.disk.write target (Text.Utf8.encode (scene.toSvg ++ "\n")) = .error fault →
      ((render w a verbose).reply a.errorFormat).Fails (if fault.refusal.isSystem then
        .notWritten target.toString fault else .internal fault.message) a.errorFormat w.disk := by
  have hlacking : a.lacking = [] := by rw [Arguments.lacking, h.valued.1, List.filterMap_nil]
  rw [render_of_scene (h.renders_of_config hfile hc) hlacking (sourceOfFile_of_file hfile) hresult]
  refine ⟨fun disk hwrite => ?_, fun fault hwrite => ?_⟩
  · rw [putOut_of_write h.toStdout rfl h.target hwrite]
    exact ⟨⟨rfl, rfl, hwrite⟩, rfl⟩
  · rw [putOut_of_fault h.toStdout rfl h.target hwrite]
    refine fails_of_error ?_ rfl rfl _
    split_ifs <;> exact Nat.succ_ne_zero _

omit hc

variable (hd : b.config w.environment = .ok d)

include hd

theorem watch_of_config :
    watch w b verbose =
      (b.watching d (Path.ofString name) target verbose).lookOnce w.resources w.disk := by
  refine watch_of_ok (h.watches_of_config hd) ?_
  rw [outputBeside, exists?_of_file hfile]
  dsimp only
  rw [← h.target, outputOf, outputOf, h.output]

include hc

/-- Both report a fault with a code. -/
theorem agree_of_code
    (hresult : (Pipeline.run w.resources c (unified content)).result = .error fault)
    (hcode : fault.code?.isSome) : Agree w.disk target a.errorFormat b.errorFormat
      ((render w a verbose).reply a.errorFormat) ((watch w b verbose').reply b.errorFormat) := by
  obtain ⟨code, hcode⟩ := Option.isSome_iff_exists.mp hcode
  have hresult' := hresult
  rw [← runLacking_of_config h hc hd] at hresult'
  have hsecond := fails_lookOnce_of_code (b.watching d (Path.ofString name) target verbose')
    (inRange_of_config hd) (read_of_file hfile) (textOf_encode content) hresult' hcode
  rw [← watch_of_config verbose' h hfile hd] at hsecond
  obtain ⟨hname, hexit⟩ := renderFailure_code fault (Path.ofString name).toString
  obtain ⟨hname', hexit', -⟩ := ofPipeline_file fault (some (Path.ofString name).toString)
  exact .failed (hname.trans hname'.symm) (hexit.trans hexit'.symm)
    (fails_render_of_fault verbose h hfile hc hresult) hsecond

/-- A number at fault is not foreseen by a rendering and not seen by a look. -/
theorem exitCode_of_number
    (hresult : (Pipeline.run w.resources c (unified content)).result = .error fault)
    (hnumber : fault.IsNumber) : ((render w a verbose).reply a.errorFormat).exitCode = 1 ∧
      ((watch w b verbose').reply b.errorFormat).exitCode = 4 ∧
      ((watch w b verbose').reply b.errorFormat).disk = w.disk := by
  have hresult' := hresult
  rw [← runLacking_of_config h hc hd] at hresult'
  have hsecond := fails_lookOnce_of_escape (b.watching d (Path.ofString name) target verbose')
    (inRange_of_config hd) (read_of_file hfile) (textOf_encode content) hresult'
    (PipelineFault.code?_of_isNumber hnumber)
  rw [← watch_of_config verbose' h hfile hd] at hsecond
  refine ⟨?_, hsecond.exitCode, hsecond.disk⟩
  rw [(fails_render_of_fault verbose h hfile hc hresult).exitCode, (renderFailure_code fault _).2,
    ofPipeline_number hnumber]
  rfl

/-- A look swaps the scene in. -/
theorem watch_of_scene
    (hresult : (Pipeline.run w.resources c (unified content)).result = .ok scene) :
    let swap := File.swap {} w.disk target (Text.Utf8.encode (scene.toSvg ++ "\n"))
    (swap.fault = none → ∃ log, (watch w b verbose') =
      { stdout := "Wrote " ++ target.toString ++ "\n", stderr := log, disk := swap.disk w.disk }) ∧
    ∀ fault, swap.fault = some fault → ((watch w b verbose').reply b.errorFormat).Fails
      (if fault.refusal.isSystem then
        .ofMount (.disk fault) (some (Path.ofString name).toString)
        else .notRead (Path.ofString name).toString none) b.errorFormat w.disk := by
  intro swap
  have hresult' := hresult
  rw [← runLacking_of_config h hc hd] at hresult'
  have htext := (Live.fileText_eq scene).1
  rw [watch_of_config verbose' h hfile hd]
  refine ⟨fun hswap => ?_, fun fault hswap => ?_⟩
  · have hmounted := lookOnce_of_mounted (b.watching d (Path.ofString name) target verbose')
      (inRange_of_config hd) (read_of_file hfile) (textOf_encode content) hresult'
      (by rwa [htext])
    rwa [htext] at hmounted
  · exact fails_lookOnce_of_mount (b.watching d (Path.ofString name) target verbose')
      (inRange_of_config hd) (read_of_file hfile) (textOf_encode content) hresult'
      (by rwa [htext])

/-- A zero character in the path of the output is not foreseen by a rendering and not seen by a
look. -/
theorem exitCode_of_zero
    (hresult : (Pipeline.run w.resources c (unified content)).result = .ok scene)
    (hzero : Disk.pathFault? target = some .zeroCharacter) :
    ((render w a verbose).reply a.errorFormat).exitCode = 1 ∧
      ((watch w b verbose').reply b.errorFormat).exitCode = 4 ∧
      ((watch w b verbose').reply b.errorFormat).disk = w.disk := by
  have hfirst := (render_of_config verbose h hfile hc hresult).2 _
    (File.write_zero hzero)
  have hsecond := (watch_of_scene verbose' h hfile hc hd hresult).2 _
    (File.swap_zero hzero)
  exact ⟨hfirst.exitCode, hsecond.exitCode, hsecond.disk⟩

variable (hopen : w.disk.Open)

include hopen

/-- Without room for the temporary file a rendering writes and a look does not. -/
theorem exitCode_of_noRoom
    (hresult : (Pipeline.run w.resources c (unified content)).result = .ok scene)
    {folder last : File.Place} (hlong : File.NoRoom w.disk target folder last) :
    ((render w a verbose).reply a.errorFormat).exitCode = 0 ∧
      ((watch w b verbose').reply b.errorFormat).exitCode = 4 ∧
      ((watch w b verbose').reply b.errorFormat).disk = w.disk := by
  obtain ⟨⟨disk, hwrite⟩, hswap⟩ := File.fault_of_noRoom hopen hlong
  obtain ⟨fault, hswap⟩ := Option.isSome_iff_exists.mp hswap
  have hfirst := ((render_of_config verbose h hfile hc hresult).1 disk hwrite).1
  have hsecond := (watch_of_scene verbose' h hfile hc hd hresult).2 fault hswap
  refine ⟨hfirst.exitCode, ?_, hsecond.disk⟩
  rw [hsecond.exitCode]
  split_ifs <;> rfl

/-- Else both write the scene, or neither does. -/
theorem agree_of_scene
    (hresult : (Pipeline.run w.resources c (unified content)).result = .ok scene)
    (hzero : Disk.pathFault? target ≠ some .zeroCharacter)
    (hroom : ∀ folder last, ¬ File.NoRoom w.disk target folder last) :
    Agree w.disk target a.errorFormat b.errorFormat
      ((render w a verbose).reply a.errorFormat) ((watch w b verbose').reply b.errorFormat) := by
  have hparts := part_ne_empty_of_outputOf (part_ne_empty name) h.target
  obtain ⟨hwritten, hrefused⟩ := render_of_config verbose h hfile hc hresult
  obtain ⟨hmounted, hkept⟩ := watch_of_scene verbose' h hfile hc hd hresult
  cases hwrite : w.disk.write target (Text.Utf8.encode (scene.toSvg ++ "\n")) with
  | ok disk =>
    obtain ⟨hfirst, hdisk⟩ := hwritten disk hwrite
    obtain ⟨hswap, hsame⟩ := File.swap_of_write hopen hparts hwrite hroom
    obtain ⟨log, hwatch⟩ := hmounted hswap
    rw [hsame] at hwatch
    rw [hwatch]
    refine .written hfirst ⟨rfl, rfl, hwrite⟩ fun reply hreply => ?_
    have hend : reply.disk = disk := by
      rcases List.mem_pair.mp hreply with rfl | rfl
      · exact hdisk
      · rfl
    rw [hend]
    exact File.find_of_write hopen hparts hwrite
  | error fault =>
    have hsystem := File.write_isSystem hzero hwrite
    have hfirst := hrefused fault hwrite
    rw [if_pos hsystem] at hfirst
    cases hswap : (File.swap {} w.disk target (Text.Utf8.encode (scene.toSvg ++ "\n"))).fault with
    | none =>
      obtain ⟨disk, hok⟩ := File.write_of_swap hopen hswap
      rw [hok] at hwrite
      cases hwrite
    | some fault' =>
      have hsecond := hkept fault' hswap
      rw [if_pos (File.swap_isSystem hzero hswap)] at hsecond
      refine .failed ?_ ?_ hfirst hsecond <;> rfl

omit hfile hc hd hopen

/-- Options that are refused are a failure of both. -/
theorem agree_of_arguments {message hint message' hint' : String}
    (ha : a.config w.environment = .error (.arguments message hint))
    (hb : b.config w.environment = .error (.arguments message' hint')) :
    Agree w.disk target a.errorFormat b.errorFormat
      ((render w a verbose).reply a.errorFormat) ((watch w b verbose').reply b.errorFormat) := by
  have hrender : render w a verbose =
      { disk := w.disk, result := .error (.arguments message hint) } := by
    unfold render
    rw [if_neg (by simp [h.toStdout]), ha]
    rfl
  have hwatch : watch w b verbose' =
      { disk := w.disk, result := .error (.arguments message' hint') } := by
    unfold watch watchOf
    rw [if_neg (by simp [h.valued.2]), if_neg h.polls, hb]
    rfl
  rw [hrender, hwatch]
  exact .failed (f := .arguments message hint) (g := .arguments message' hint') rfl rfl
    (fails_at_once (Nat.succ_ne_zero _) w.disk _) (fails_at_once (Nat.succ_ne_zero _) w.disk _)

include hfile hopen

theorem agree_of_not_apart (hnone : ¬ Apart w a target (unified content)) :
    Agree w.disk target a.errorFormat b.errorFormat
      ((render w a verbose).reply a.errorFormat) ((watch w b verbose').reply b.errorFormat) := by
  rcases h.config with ⟨c, d, hc, hd, -⟩ | ⟨message, hint, message', hint', hc, hd⟩
  · cases hresult : (Pipeline.run w.resources c (unified content)).result with
    | error fault =>
      have hsettings := Config.ofSettings_settings (inRange_of_config hc)
      rcases Pipeline.run_code hsettings (h.builtin c hc) hresult with hcode | hnumber
      · exact agree_of_code verbose verbose' h hfile hc hd hresult hcode
      · exact absurd (.number hc hresult hnumber) hnone
    | ok scene =>
      exact agree_of_scene verbose verbose' h hfile hc hd hopen hresult
        (fun hzero => hnone (.zero hc hresult hzero))
        (fun folder last hlong => hnone (.noRoom hc hresult hlong))
  · exact agree_of_arguments verbose verbose' h hc hd

theorem exitCode_of_apart (happart : Apart w a target (unified content)) :
    ((render w a verbose).reply a.errorFormat).exitCode ∈ [0, 1] ∧
      ((watch w b verbose').reply b.errorFormat).exitCode = 4 ∧
      ((watch w b verbose').reply b.errorFormat).disk = w.disk := by
  rcases h.config with ⟨c, d, hc, hd, -⟩ | ⟨message, hint, message', hint', hc, hd⟩
  · cases happart with
    | number hc' hresult hnumber =>
      obtain ⟨hfirst, hsecond⟩ := exitCode_of_number verbose verbose' h hfile hc' hd hresult hnumber
      exact ⟨by rw [hfirst]; decide, hsecond⟩
    | zero hc' hresult hzero =>
      obtain ⟨hfirst, hsecond⟩ := exitCode_of_zero verbose verbose' h hfile hc' hd hresult hzero
      exact ⟨by rw [hfirst]; decide, hsecond⟩
    | noRoom hc' hresult hlong =>
      obtain ⟨hfirst, hsecond⟩ :=
        exitCode_of_noRoom verbose verbose' h hfile hc' hd hopen hresult hlong
      exact ⟨by rw [hfirst]; decide, hsecond⟩
  · cases happart <;> simp_all

/-- **Rendering a file and watching it once come to the same** with the same options and the builtin
engine, on a disk that keeps nothing from being read and written: both fail with one code and leave
the disk alone, or both write the same text to the output and nothing else.  The exceptions are a
number or a zero character that is at fault and that a look does not report, and an output beside
which there is no room for a temporary file; then a look fails and its exit code is another one. -/
theorem run_once (hread : Arguments.read args = .ok a) (hread' : Arguments.read args' = .ok b) :
    (¬ Apart w a target (unified content) →
      Agree w.disk target a.errorFormat b.errorFormat (run w args) (run w args')) ∧
    (Apart w a target (unified content) → (run w args).exitCode ∈ [0, 1] ∧
      (run w args').exitCode = 4 ∧ (run w args').disk = w.disk) := by
  rw [run_of_render hread h.renders, run_of_watch hread' h.watches]
  exact ⟨agree_of_not_apart _ _ h hfile hopen, exitCode_of_apart _ _ h hfile hopen⟩

end Commands

/-- The arguments `render g -o o` as they are read. -/
def renderToSample : Arguments :=
  { command := some .render, input := some "g", output := some "o" }

/-- The arguments `watch g -o o --once` as they are read. -/
def watchSample : Arguments :=
  { command := some .watch, input := some "g", output := some "o", once := true }

theorem read_renderToSample : Arguments.read ["render", "g", "-o", "o"] = .ok renderToSample := by
  have hlevel (r : Reading) : readLevel none r ["render", "g", "-o", "o"] =
      .ok ({ r with hasInput := false }, ["render", "g", "-o", "o"]) := by cbv
  have hcommand (r : Reading) : readCommand r ["render", "g", "-o", "o"] =
      .ok { r with
        arguments := { r.arguments with
          command := some .render, input := some "g", output := some "o"
          valueless := r.arguments.valueless.filter (· != .output) }
        hasInput := true } := by cbv
  simp only [Arguments.read, hlevel, hcommand, bind, Except.bind]
  rfl

/-- An option that the program does not know is left to the command. -/
theorem readDashed_unknown {known : List (String × Opt)} {s : String}
    (hknown : known.lookup s = none) (hmarked : markedMeaning? known s = none)
    (hmeanings : meanings known s.toList = []) (hnumber : isNegativeNumber s = false)
    (hblank : s.contains ' ' = false) : readDashed known s = .ok (.option s none) := by
  simp only [readDashed, hknown, hmarked, hmeanings, hnumber, hblank]
  rfl

theorem read_watchSample :
    Arguments.read ["watch", "g", "-o", "o", "--once"] = .ok watchSample := by
  have hshort : readDashed (spellings (Command.options none)) "-o" = .ok (.option "-o" none) :=
    readDashed_unknown rfl rfl rfl rfl (by simp)
  have hlong : readDashed (spellings (Command.options none)) "--once" =
      .ok (.option "--once" none) := readDashed_unknown rfl rfl rfl rfl (by simp)
  have hwords : readWords (spellings (Command.options none))
      ["watch", "g", "-o", "o", "--once"] =
      .ok [.plain "watch", .plain "g", .option "-o" none, .plain "o", .option "--once" none] := by
    simp [readWords, hshort, hlong, Except.map]
  have hlevel (r : Reading) : readLevel none r ["watch", "g", "-o", "o", "--once"] =
      .ok ({ r with hasInput := false }, ["watch", "g", "-o", "o", "--once"]) := by
    rw [readLevel, hwords]
    dsimp only
    rw [scan]
    rfl
  have hcommand (r : Reading) : readCommand r ["watch", "g", "-o", "o", "--once"] =
      .ok { r with
        arguments := { r.arguments with
          command := some .watch, input := some "g", output := some "o", once := true
          valueless := r.arguments.valueless.filter (· != .output) }
        hasInput := true } := by cbv
  simp only [Arguments.read, hlevel, hcommand, bind, Except.bind]
  rfl

/-- An environment that names the engine. -/
def builtinOnly (name : String) : Option String :=
  if name = Setting.engine.variable then some "builtin" else none

/-- A world with a text in the file `g`. -/
def worldOf (content : String) : World :=
  { disk := { entries := [(["g"], .file (Text.Utf8.encode content))] }, environment := builtinOnly }

/-- An environment that asks for the exact configuration. -/
def exactOnly (name : String) : Option String :=
  [(Setting.engine.variable, "builtin"), (Setting.sketchiness.variable, "0"),
    (Setting.fontSize.variable, "12")].lookup name

section Samples

variable {environment : String → Option String} {outer : Config}
  (houter : Config.ofEnvironment environment = .ok outer) (happly : outer.apply {} = .ok outer)

include houter happly

/-- Arguments without settings leave those of the environment. -/
theorem config_of_outer {a : Arguments} (hvalued : a.valueless = []) (hsettings : a.settings = {})
    (hseed : a.noSeed = false) : a.config environment = .ok outer := by
  rw [(config_of_apply hvalued houter).1 outer (by rw [hsettings]; exact happly), hseed]
  rfl

theorem sameRendering_samples (hbuiltin : outer.engine = .builtin)
    (hfinite : outer.delay.isFinite) :
    SameRendering renderToSample watchSample environment "g" (Path.ofString "o") where
  renders := rfl
  watches := rfl
  input := ⟨rfl, rfl⟩
  output := rfl
  target := rfl
  text := rfl
  toStdout := rfl
  once := rfl
  polls := by decide
  valued := ⟨rfl, rfl⟩
  settings := rfl
  noSeed := rfl
  delay := nofun
  builtin c hc := by
    rw [config_of_outer houter happly rfl rfl rfl] at hc
    cases hc
    exact hbuiltin
  finite c hc := by
    rw [config_of_outer houter happly rfl rfl rfl] at hc
    cases hc
    exact hfinite

end Samples

theorem open_worldOf (content : String) : (worldOf content).disk.Open := by
  intro p h
  unfold Disk.entry? at h
  split_ifs at h
  · cases h
  · obtain ⟨before, after, hentries, -⟩ := List.lookup_eq_some_iff.mp h
    have hmem : (p, File.Entry.sealed) ∈ (worldOf content).disk.entries := by
      rw [hentries]
      exact List.mem_append_right before List.mem_cons_self
    simp [worldOf] at hmem

theorem find_worldOf (content : String) :
    (worldOf content).disk.find (Path.ofString "g") = .ok (.file (Text.Utf8.encode content)) := rfl

/-- A world with a text in the file `g` and the exact configuration. -/
def exactWorld (content : String) : World := { worldOf content with environment := exactOnly }

/-- A graph with one node. -/
def plainSample : String := "digraph \x7b a \x7d"

/-- Both write the drawing of a plain graph. -/
theorem run_once_plain : ∃ text, ∀ args ∈ [["render", "g", "-o", "o"],
    ["watch", "g", "-o", "o", "--once"]], (run (exactWorld plainSample) args).exitCode = 0 ∧
      (run (exactWorld plainSample) args).disk.find (Path.ofString "o") =
        .ok (.file (Text.Utf8.encode text)) := by
  have houter : Config.ofEnvironment exactOnly = .ok Pipeline.exactConfig := rfl
  have hsame := sameRendering_samples houter rfl rfl (by decide)
  have hconfig : renderToSample.config exactOnly = .ok Pipeline.exactConfig :=
    config_of_outer houter rfl rfl rfl rfl
  have hzero : Decimal.IsZero Pipeline.exactConfig.sketchiness := ⟨.positive, rfl⟩
  obtain ⟨scene, hscene⟩ : ∃ scene, (Pipeline.run (exactWorld plainSample).resources
      Pipeline.exactConfig (unified plainSample)).result = .ok scene :=
    Pipeline.exists_run hzero (by decide +kernel)
  have hfind : (exactWorld plainSample).disk.find (Path.ofString "g") =
      .ok (.file (Text.Utf8.encode plainSample)) := find_worldOf plainSample
  have hopen : (exactWorld plainSample).disk.Open := open_worldOf plainSample
  have hnone : ¬ Apart (exactWorld plainSample) renderToSample (Path.ofString "o")
      (unified plainSample) := by
    intro happart
    cases happart with
    | number hc h hnumber =>
      obtain rfl := Except.ok.inj (hconfig.symm.trans hc)
      rw [hscene] at h
      cases h
    | zero hc h hzero => exact absurd hzero (by decide)
    | noRoom hc h hlong =>
      obtain ⟨hparent, -, -, hlong⟩ := hlong
      cases hparent
      exact absurd hlong (by decide)
  obtain ⟨hagree, -⟩ := run_once hsame hfind hopen read_renderToSample read_watchSample
  cases hagree hnone with
  | failed hcode hexit hfirst hsecond =>
    obtain ⟨disk, hwrite⟩ : ∃ disk, (exactWorld plainSample).disk.write (Path.ofString "o")
        (Text.Utf8.encode (scene.toSvg ++ "\n")) = .ok disk := ⟨_, rfl⟩
    obtain ⟨hwritten, -⟩ := (render_of_config false hsame hfind hconfig hscene).1 disk hwrite
    rw [run_of_render read_renderToSample rfl] at hfirst
    exact absurd hwritten.exitCode (hfirst.exitCode ▸ hfirst.failed)
  | @written text hfirst hsecond hcontent =>
    refine ⟨text, fun args hargs => ?_⟩
    rcases List.mem_pair.mp hargs with rfl | rfl
    · exact ⟨hfirst.exitCode, hcontent _ List.mem_cons_self⟩
    · exact ⟨hsecond.exitCode, hcontent _ (List.mem_cons_of_mem _ List.mem_cons_self)⟩

/-- The number of the wide graph keeps a rendering and a look apart. -/
theorem exitCode_wide :
    (run (worldOf Pipeline.wideSample) ["render", "g", "-o", "o"]).exitCode = 1 ∧
      (run (worldOf Pipeline.wideSample) ["watch", "g", "-o", "o", "--once"]).exitCode = 4 := by
  have houter : Config.ofEnvironment builtinOnly = .ok Pipeline.builtinConfig := rfl
  have hconfig : renderToSample.config builtinOnly = .ok Pipeline.builtinConfig :=
    config_of_outer houter rfl rfl rfl rfl
  have hconfig' : watchSample.config builtinOnly = .ok Pipeline.builtinConfig :=
    config_of_outer houter rfl rfl rfl rfl
  obtain ⟨fault, hresult, hcode⟩ := Pipeline.wide_fault
  have hnumber : fault.IsNumber := by
    have hfault := Pipeline.run_code Pipeline.ofSettings_builtin rfl hresult
    rw [hcode] at hfault
    exact hfault.resolve_left Bool.false_ne_true
  have htext : unified Pipeline.wideSample = Pipeline.wideSample := by decide +kernel
  rw [← htext] at hresult
  rw [run_of_render read_renderToSample rfl, run_of_watch read_watchSample rfl]
  obtain ⟨hfirst, hsecond, -⟩ := exitCode_of_number _ _
    (sameRendering_samples houter rfl rfl (by decide)) (find_worldOf Pipeline.wideSample)
    hconfig hconfig' hresult hnumber
  exact ⟨hfirst, hsecond⟩

end Scrawl.Cli
