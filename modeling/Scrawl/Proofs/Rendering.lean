import Scrawl.Proofs.Exact
import Scrawl.Live.Session
import Scrawl.Proofs.Config
import Scrawl.Proofs.Description.Content
import Scrawl.Proofs.Label.Sizes
import Scrawl.Proofs.Layout
import Scrawl.Proofs.Stroke.Faults

/-!
# Scrawl.Proofs.Rendering — what keeps a description from being rendered

With the builtin engine every stage gives the next what it needs: what is read has edges between its
nodes, what is measured has sizes, what is laid out has all its geometry.  So the faults that are
left are those of the description, labels that cannot be measured, and numbers.

* `draw_fault`: a graph with all its geometry is drawn unless a number stops a stroke.
* `prepare_builtin`: what is prepared can be drawn.
* `run_builtin`: a description is rendered unless it is faulty, or a label or a number is.
-/

namespace Scrawl

/-! ### Drawings -/

namespace Scene

open Stroke
open Description (error_of_bind_error)

variable {σ α β : Type} [Scalar α]

theorem runSketch_fault {x : Sketch σ β} (hx : StopsAtNumbers α x) {source : σ}
    {fault : RenderFault α} (h : runSketch x source = .error fault) :
    ∃ n, fault = .stroke (.number n) ∧ n.Arises α := by
  unfold runSketch at h
  split at h
  · cases h
  · next f rest hf =>
    cases h
    obtain ⟨n, rfl, hn⟩ := hx source f rest hf
    exact ⟨n, rfl, hn⟩

omit [Scalar α] in
theorem resolve_ok {g : Graph α} (h : g.geometryFault? = none) :
    ∃ r, resolve g = .ok r ∧ r.edges = g.edges := by
  obtain ⟨-, -, -, hw, hh⟩ := Graph.geometryFault?_eq_none.mp h
  obtain ⟨w, hw⟩ := Option.isSome_iff_exists.mp hw
  obtain ⟨k, hk⟩ := Option.isSome_iff_exists.mp hh
  unfold resolve
  rw [h, hw, hk]
  exact ⟨_, rfl, rfl⟩

theorem stopsAtNumbers_head (width height fontSize : α) :
    StopsAtNumbers α (drawHead width height fontSize : Sketch σ (α × α × α)) :=
  (stopsAtNumbers_written _).bind fun _ => (stopsAtNumbers_written _).bind fun _ =>
    (stopsAtNumbers_written _).bind fun _ => StopsAtNumbers.pure _

variable [Source σ α]

theorem stopsAtNumbers_arrow (pen : Pen α) :
    StopsAtNumbers α (drawArrow pen : Sketch σ (Path α × Path α)) :=
  (stopsAtNumbers_outline pen _ _).bind fun _ =>
    (stopsAtNumbers_linearPath pen _ _ _ true).bind fun _ => StopsAtNumbers.pure _

theorem stopsAtNumbers_node (pen : Pen α) (id label : String) (size : α × α) (center : Point α) :
    StopsAtNumbers α (drawNode pen id label size center : Sketch σ (NodeShape α)) :=
  (stopsAtNumbers_rectangle pen _ _ _ _).bind fun _ =>
    (stopsAtNumbers_writtenPoint _).bind fun _ => StopsAtNumbers.pure _

theorem stopsAtNumbers_edge (pen : Pen α) {e : Edge α} (h : e.isRouted) :
    StopsAtNumbers α (drawEdge pen e : Sketch σ (EdgeShape α)) :=
  (stopsAtNumbers_curve pen (by simpa [Edge.isRouted] using h)).bind fun _ => StopsAtNumbers.pure _

/-- **A graph with all its geometry is drawn** unless a number cannot be written or squared. -/
theorem draw_fault {style : Style α} {source : σ} {g : Graph α} {fault : RenderFault α}
    (hg : g.geometryFault? = none) (hs : ¬ style.sketchiness < 0.0)
    (h : draw style source g = .error fault) : ∃ n, fault = .stroke (.number n) ∧ n.Arises α := by
  obtain ⟨r, hr, hedges⟩ := resolve_ok hg
  obtain ⟨-, -, hrouted, -, -⟩ := Graph.geometryFault?_eq_none.mp hg
  unfold draw at h
  rw [hr] at h
  simp only [Except.mapError, hs, if_false] at h
  rcases error_of_bind_error h with h | ⟨_, hok, h⟩
  · cases h
  obtain rfl := Except.ok.inj hok
  rcases error_of_bind_error h with h | ⟨_, -, h⟩
  · exact runSketch_fault (stopsAtNumbers_head _ _ _) h
  rcases error_of_bind_error h with h | ⟨_, -, h⟩
  · exact runSketch_fault (stopsAtNumbers_arrow _) h
  rcases error_of_bind_error h with h | ⟨_, -, h⟩
  · exact runSketch_fault (StopsAtNumbers.mapM fun _ _ => stopsAtNumbers_node _ _ _ _ _) h
  rcases error_of_bind_error h with h | ⟨_, -, h⟩
  · exact runSketch_fault
      (StopsAtNumbers.mapM fun e he => stopsAtNumbers_edge _ (hrouted e (hedges ▸ he))) h
  · cases h

omit [Scalar α] [Source σ α] in
/-- Over the reals every graph with all its geometry is drawn. -/
theorem exists_draw_real [Source σ ℝ] {style : Style ℝ} (source : σ) {g : Graph ℝ}
    (hg : g.geometryFault? = none) (hs : ¬ style.sketchiness < 0.0) :
    ∃ d, draw style source g = .ok d := by
  cases h : draw style source g with
  | ok d => exact ⟨d, rfl⟩
  | error fault =>
    obtain ⟨n, -, a, hwrite | hsquare⟩ := draw_fault hg hs h
    · cases hwrite
    · cases hsquare

end Scene

/-! ### Runs with the builtin engine -/

theorem Config.rangeFault?_ofSettings {settings : Settings} {c : Config}
    (h : Config.ofSettings settings = .ok c) (setting : Setting) :
    c.rangeFault? setting = none :=
  Config.inRange_iff.mp (Config.inRange_of_apply h) setting

namespace PipelineFault

/-- Whether a number is at fault: one of a font, or one that a stroke cannot write or square. -/
def IsNumber : PipelineFault → Prop
  | measure (.number _) => True
  | render (.stroke (.number _)) => True
  | _ => False

theorem code?_of_isNumber {fault : PipelineFault} (h : fault.IsNumber) : fault.code? = none := by
  unfold IsNumber at h
  split at h
  · rfl
  · rfl
  · cases h

end PipelineFault

namespace Pipeline

variable {r : Resources} {c : Config} {text : String}

/-- **What is prepared can be drawn**; else the description is faulty, or a label has no size. -/
theorem prepare_builtin (he : c.engine = .builtin) :
    (∃ fault, Description.read text = .error fault ∧
      (prepare r c text).result = .error (.description fault)) ∨
    ∃ g, Description.read text = .ok g ∧
      ((∃ fault, (∃ v ∈ g.nodes, ((measurer c).text v.label).2 = .error fault) ∧
        (prepare r c text).result = .error (.measure fault)) ∨
      ∃ g', (prepare r c text).result = .ok g' ∧ g'.geometryFault? = none) := by
  unfold prepare
  cases hread : Description.read text with
  | error fault => exact Or.inl ⟨fault, rfl, rfl⟩
  | ok g =>
    refine Or.inr ⟨g, rfl, ?_⟩
    have hjoined : g.Joined := Description.joined_of_read hread
    set framed := { g with marginX := c.margin, marginY := c.margin }
    dsimp only
    cases hsized : ((measurer c).graph none framed).2 with
    | error fault => exact Or.inl ⟨fault, Label.graph_fault (g := framed) hsized, rfl⟩
    | ok g₁ =>
      obtain ⟨hcaptions, hedges, hsizes⟩ := Label.graph_sized hsized
      have hids : g₁.ids = g.ids := Graph.ids_of_captions hcaptions
      have hj : g₁.Joined := fun e he => hids ▸ hjoined e (hedges ▸ he)
      obtain ⟨g', size, hlayout, hgeometry⟩ := Layout.layout_builtin hj hsizes r.dot?
      refine Or.inr ⟨g', ?_, hgeometry⟩
      dsimp only
      rw [he, hlayout]

theorem render_fault {settings : Settings} (hc : Config.ofSettings settings = .ok c) {seed : Int}
    {g : Graph Float} (hg : g.geometryFault? = none) {fault : Scene.RenderFault Float}
    (h : Scene.render (style c) seed g = .error fault) :
    ∃ n, fault = .stroke (.number n) ∧ n.Arises Float := by
  have hs : ¬ c.sketchiness < 0.0 := fun hneg => by
    have hrange := Config.rangeFault?_ofSettings hc .sketchiness
    rw [Config.rangeFault?, if_pos hneg] at hrange
    cases hrange
  have hstyle : ¬ (style c).sketchiness < 0.0 := hs
  rcases Description.error_of_bind_error h with hdraw | ⟨_, -, hok⟩
  · exact Scene.draw_fault hg (by with_reducible_and_instances exact hstyle) hdraw
  · cases hok

/-- The label of a node of the description has no size. -/
def Unmeasured (c : Config) (text : String) (fault : Label.MeasureFault) : Prop :=
  ∃ g, Description.read text = .ok g ∧
    ∃ v ∈ g.nodes, ((measurer c).text v.label).2 = .error fault

/-- The faults of a run: of the description, of a label, or of a number that is drawn. -/
theorem run_fault {settings : Settings} (hc : Config.ofSettings settings = .ok c)
    (he : c.engine = .builtin) {fault : PipelineFault}
    (h : (run r c text).result = .error fault) :
    (∃ f, Description.read text = .error f ∧ fault = .description f) ∨
    (∃ f, Unmeasured c text f ∧ fault = .measure f) ∨
    ∃ n, fault = .render (.stroke (.number n)) ∧ n.Arises Float := by
  unfold run at h
  dsimp only at h
  rcases @prepare_builtin r c text he with
    ⟨f, hread, hprepare⟩ | ⟨g, hread, ⟨f, ⟨v, hv, hsize⟩, hprepare⟩ | ⟨g', hprepare, hgeometry⟩⟩
  · rw [hprepare] at h
    cases h
    exact Or.inl ⟨f, hread, rfl⟩
  · rw [hprepare] at h
    cases h
    exact Or.inr (Or.inl ⟨f, ⟨g, hread, v, hv, hsize⟩, rfl⟩)
  · rw [hprepare] at h
    dsimp only at h
    split at h
    · next f hrender =>
      cases h
      obtain ⟨n, rfl, hn⟩ := render_fault hc hgeometry hrender
      exact Or.inr (Or.inr ⟨n, rfl, hn⟩)
    · cases h

/-- A label of the plain face has no size for a reason that a rendering may meet, or by a number. -/
theorem unmeasured_code {fault : Label.MeasureFault} (h : Unmeasured c text fault) :
    (PipelineFault.measure fault).code?.isSome ∨ (PipelineFault.measure fault).IsNumber := by
  obtain ⟨g, -, v, -, hsize⟩ := h
  have hface : (∃ f, (measurer c).face = .error (.number f)) ∨
      ∃ size, (measurer c).face = .ok (Label.plainFace size) := by
    unfold measurer
    cases Font.loadSize c.fontSize with
    | error f => exact Or.inl ⟨f, rfl⟩
    | ok size => exact Or.inr ⟨_, rfl⟩
  rcases Label.text_plain_fault hface hsize with ⟨f, rfl⟩ | ⟨reason, rfl⟩
  · exact Or.inr trivial
  · exact Or.inl rfl

/-- The fault of a run has a code, or a number is at fault. -/
theorem run_code {settings : Settings} (hc : Config.ofSettings settings = .ok c)
    (he : c.engine = .builtin) {fault : PipelineFault}
    (h : (run r c text).result = .error fault) : fault.code?.isSome ∨ fault.IsNumber := by
  rcases run_fault hc he h with ⟨f, -, rfl⟩ | ⟨f, hf, rfl⟩ | ⟨n, rfl, -⟩
  · exact Or.inl rfl
  · exact unmeasured_code hf
  · exact Or.inr trivial

section Sessions

open Live

variable {τ κ : Type} [DecidableEq κ]

/-- A run onto a surface in memory passes on what the pipeline does, unless it has a code. -/
theorem outcome_memory (w : Workshop κ) (s : Session τ κ) {v : κ} (hw : w.mount v = Mount.memory)
    (text : String) :
    (∃ scene, (s.run w v text).1.outcome = .mounted scene) ∨
    (∃ code fault, (s.run w v text).1.outcome = .notRendered code fault) ∨
    ∃ fault, (w.render text).result = .error fault ∧ fault.code? = none ∧
      (s.run w v text).1.outcome = .escaped fault := by
  unfold Session.run
  rw [hw]
  dsimp only
  cases hr : (w.render text).result with
  | ok scene => exact Or.inl ⟨scene, rfl⟩
  | error fault =>
    dsimp only
    cases hc : fault.code? with
    | some code => exact Or.inr (Or.inl ⟨code, fault, rfl⟩)
    | none => exact Or.inr (Or.inr ⟨fault, rfl, hc, rfl⟩)

/-- **Only numbers are passed on.**  With settings that are accepted and the builtin engine, a
description is rendered, or the fault has a code, or a number is at fault.  If every label has a
size, the fault is one of the description, or a number that cannot be drawn: one that cannot be
written, or whose square is out of range.  If its surface is in memory, a session passes on the
fault of a number and no other. -/
theorem run_builtin {settings : Settings} (hc : Config.ofSettings settings = .ok c)
    (he : c.engine = .builtin) (r : Resources) (text : String) :
    (∀ fault, (run r c text).result = .error fault → fault.code?.isSome ∨ fault.IsNumber) ∧
    ((∀ fault, ¬ Unmeasured c text fault) → ∀ fault, (run r c text).result = .error fault →
      (∃ f, Description.read text = .error f ∧ fault = .description f) ∨
        ∃ n, fault = .render (.stroke (.number n)) ∧ n.Arises Float) ∧
    ∀ (s : Session τ κ) (v : κ), let ran := (s.run ⟨run r c, fun _ => Mount.memory⟩ v text).1
      (∃ scene, ran.outcome = .mounted scene) ∨
      (∃ code fault, ran.outcome = .notRendered code fault) ∨
      ∃ fault, (run r c text).result = .error fault ∧ ran.outcome = .escaped fault ∧
        fault.IsNumber := by
  have hfault : ∀ fault, (run r c text).result = .error fault →
      fault.code?.isSome ∨ fault.IsNumber := fun fault h => run_code hc he h
  refine ⟨hfault, fun hsizes fault h => ?_, fun s v => ?_⟩
  · rcases run_fault hc he h with hread | ⟨f, hf, -⟩ | hn
    · exact Or.inl hread
    · exact absurd hf (hsizes f)
    · exact Or.inr hn
  · rcases outcome_memory ⟨run r c, fun _ => Mount.memory⟩ s rfl text with
      hmounted | hreported | ⟨fault, hr, hnone, hescaped⟩
    · exact Or.inl hmounted
    · exact Or.inr (Or.inl hreported)
    · refine Or.inr (Or.inr ⟨fault, hr, hescaped, (hfault fault hr).resolve_left ?_⟩)
      rw [hnone]
      exact Bool.false_ne_true

end Sessions

/-! ### A number that is at fault -/

/-- A gap that is finite, with a multiple that is not. -/
def wideSample : String := "digraph \x7b nodesep=\"1e308\"; a; b; c \x7d"

/-- The default settings, with the builtin engine. -/
def builtinConfig : Config := { engine := .builtin }

theorem ofSettings_builtin :
    Config.ofSettings { engine := some "builtin" } = .ok builtinConfig := rfl

/-- Labels have sizes where the measurer gives them some. -/
theorem measured_of_all {c : Config} {text : String}
    (h : ((Description.read text).toOption.all fun g =>
      g.nodes.all fun v => ((measurer c).text v.label).2.isOk) = true)
    (fault : Label.MeasureFault) : ¬ Unmeasured c text fault := by
  rintro ⟨g, hg, v, hv, hsize⟩
  rw [hg] at h
  have hok := List.all_eq_true.mp h v hv
  rw [hsize] at hok
  cases hok

theorem wide_measured (fault : Label.MeasureFault) :
    ¬ Unmeasured builtinConfig wideSample fault :=
  measured_of_all (by decide +kernel) fault

theorem wide_fault : ∃ fault, (run {} builtinConfig wideSample).result = .error fault ∧
    fault.code? = none := by
  -- a scene would give `false`, and so would a fault with a code
  have hfault : (((run {} builtinConfig wideSample).result.map fun _ => false).tryCatch
      fun fault => .ok fault.code?.isNone).toOption = some true := by
    decide +kernel
  cases h : (run {} builtinConfig wideSample).result with
  | error fault =>
    rw [h] at hfault
    exact ⟨fault, rfl, Option.isNone_iff_eq_none.mp (Option.some.inj hfault)⟩
  | ok scene =>
    rw [h] at hfault
    cases hfault

/-- A number stands behind the fault of the wide graph. -/
theorem run_builtin_wide : ∃ n, (run {} builtinConfig wideSample).result =
    .error (.render (.stroke (.number n))) ∧ n.Arises Float := by
  obtain ⟨fault, hr, hnone⟩ := wide_fault
  obtain ⟨-, hmeasured, -⟩ := run_builtin (τ := ℕ) (κ := Unit) ofSettings_builtin rfl {} wideSample
  rcases hmeasured wide_measured fault hr with ⟨f, -, rfl⟩ | ⟨n, rfl, hn⟩
  · cases hnone
  · exact ⟨n, hr, hn⟩

/-- The settings are accepted, the gap is read and every label has a size, and yet the fault has no
code: a session onto memory passes it on. -/
theorem run_builtin_escapes :
    Config.ofSettings { engine := some "builtin" } = .ok builtinConfig ∧
    builtinConfig.engine = .builtin ∧ (∃ g, Description.read wideSample = .ok g) ∧
    (∀ fault, ¬ Unmeasured builtinConfig wideSample fault) ∧
    ∃ fault, (run {} builtinConfig wideSample).result = .error fault ∧ fault.code? = none ∧
      (Live.Session.run ⟨run {} builtinConfig, fun _ => Live.Mount.memory⟩
        { debouncer := Live.Debouncer.start 0 0 : Live.Session ℕ Unit } () wideSample).1.outcome =
          .escaped fault := by
  have hread : ∃ g, Description.read wideSample = .ok g :=
    Description.exists_ok_of_isOk (by decide +kernel)
  obtain ⟨fault, hr, hnone⟩ := wide_fault
  refine ⟨ofSettings_builtin, rfl, hread, wide_measured, fault, hr, hnone, ?_⟩
  unfold Live.Session.run
  dsimp only
  rw [hr]
  dsimp only
  rw [hnone]

end Pipeline

end Scrawl
