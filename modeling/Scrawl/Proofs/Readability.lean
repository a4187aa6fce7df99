import Scrawl.Proofs.Description.Words
import Scrawl.Proofs.Scene.Runs

/-!
# Scrawl.Proofs.Readability — when a rendered description can be read

Markup is escaped, but a document may not have every character, and escaping does not change that.
From the text of a description to the document the ids and labels pass through as they are.  So the
document of a description can be read if and only if its ids and labels, and the font family, are
of characters that a document may have; and so they are where the text is.

* `layout_same`, `prepare_ok`: what is measured and laid out keeps its ids, labels and ends.
* `legal_of_render`, `read_of_render`: when a scene is of such characters, and when it can be read.
* `run_readable`: the same for a description.
-/

namespace Scrawl

open Svg

/-! ### Graphs on their way -/

theorem Graph.captions_of_cleared {g g' : Graph Float} (h : g'.cleared = g.cleared) :
    g'.captions = g.captions := by
  have hcleared : ∀ g : Graph Float, g.cleared.captions = g.captions := fun g => by
    rw [captions, nodes_cleared, List.map_map]
    rfl
  rw [← hcleared g', h, hcleared]

namespace Layout

/-- A layout that succeeds changes nothing but geometry, whichever engine it is. -/
theorem layout_same {g g' : Graph Float} {engine : String} {dot? : Option (String → DotRun)}
    {input : Option String} {size : Float × Float}
    (h : layout engine dot? g = ⟨g', input, .ok size⟩) : g'.cleared = g.cleared := by
  rcases layout_cases engine dot? g with ⟨_, he⟩ | he | ⟨dot, -, he⟩
  · cases he.symm.trans h
  · exact Layered.cleared_of_layout (builtin_eq_ok (he.symm.trans h)).2
  · rcases viaDot_cases g dot with
      ⟨_, hv⟩ | ⟨_, _, placed, -, hplaced, hv | ⟨_, _, _, _, -, -, -, hv⟩⟩
    · cases (he.trans hv).symm.trans h
    · cases (he.trans hv).symm.trans h
      exact cleared_drawn (Graphviz.placement_covers hplaced).2.1
    · cases (he.trans hv).symm.trans h

end Layout

namespace Pipeline

variable {r : Resources} {c : Config} {text : String}

/-- What is prepared has the ids and labels of the description, and edges between its nodes. -/
theorem prepare_ok {g' : Graph Float} (h : (prepare r c text).result = .ok g') :
    ∃ g, Description.read text = .ok g ∧ g'.captions = g.captions ∧ g'.Joined := by
  unfold prepare at h
  cases hread : Description.read text with
  | error fault =>
    rw [hread] at h
    cases h
  | ok g =>
    rw [hread] at h
    dsimp only at h
    refine ⟨g, rfl, ?_⟩
    set framed := { g with marginX := c.margin, marginY := c.margin }
    cases hsized : ((measurer c).graph none framed).2 with
    | error fault =>
      rw [hsized] at h
      cases h
    | ok g₁ =>
      rw [hsized] at h
      dsimp only at h
      obtain ⟨hcaptions, hedges, -⟩ := Label.graph_sized hsized
      have hj : g₁.Joined := fun e he =>
        Graph.ids_of_captions hcaptions ▸ Description.joined_of_read hread e (hedges ▸ he)
      cases hlayout : layout c.engine.name r.dot? g₁ with
      | mk laidOut input result =>
        rw [hlayout] at h
        cases result with
        | error fault => cases h
        | ok size =>
          cases h
          have hsame := Layout.layout_same hlayout
          exact ⟨(Graph.captions_of_cleared hsame).trans hcaptions,
            Graph.joined_of_cleared hsame hj⟩

end Pipeline

/-! ### Scenes -/

namespace Scene

open Element

variable {style : Style Float} {seed : ℤ} {g : Graph Float} {s : Scene}

theorem render_ok (h : render style seed g = .ok s) : ∃ d, Draws g d ∧
    d.fontFamily = style.fontFamily ∧ s.root = document d := by
  obtain ⟨d, hdraw, h⟩ := Description.ok_of_bind_ok h
  obtain ⟨hdraws, hfamily⟩ := draw_ok hdraw
  cases h
  exact ⟨d, hdraws, hfamily, rfl⟩

theorem legal_toSvg {d : Drawing Float} (h : s.root = document d) :
    Xml.Legal s.toSvg ↔ (document d).Everywhere IsLegal := by
  rw [Xml.Legal, toSvg, h, Element.render, String.toList_ofList]
  exact legal_chars 0 _ (named_document d)

/-- **The scene of a graph** is of characters that a document may have if and only if its font
family, ids and labels are. -/
theorem legal_of_render (h : render style seed g = .ok s) (hj : g.Joined) :
    Xml.Legal s.toSvg ↔ Xml.Legal style.fontFamily ∧
      ∀ v ∈ g.captions, Xml.Legal v.1 ∧ Xml.Legal v.2 := by
  obtain ⟨d, hdraws, hfamily, hroot⟩ := render_ok h
  -- the ends of the edges are ids of nodes
  have hends : (∀ v ∈ g.nodes, Xml.Legal v.id ∧ Xml.Legal v.label) →
      ∀ e ∈ g.edges, Xml.Legal e.source ∧ Xml.Legal e.target := by
    intro hnodes e he
    obtain ⟨hsource, htarget⟩ := hj e he
    obtain ⟨u, hu, hsource⟩ := List.mem_map.mp hsource
    obtain ⟨v, hv, htarget⟩ := List.mem_map.mp htarget
    exact ⟨hsource ▸ (hnodes u hu).1, htarget ▸ (hnodes v hv).1⟩
  rw [legal_toSvg hroot, legal_drawn hdraws, hfamily, Graph.captions, List.forall_mem_map]
  exact and_congr_right' (and_iff_left_of_imp hends)

/-- A scene can be read if and only if it is of such characters. -/
theorem read_of_render (h : render style seed g = .ok s) :
    (∃ root, Xml.read s.toSvg = some root) ↔ Xml.Legal s.toSvg := by
  obtain ⟨d, -, -, hroot⟩ := render_ok h
  have hread := read_render (named_document d)
  rw [legal_toSvg hroot, toSvg, hroot]
  constructor
  · rintro ⟨root, hsome⟩
    by_contra hlegal
    rw [hread.2 hlegal] at hsome
    cases hsome
  · intro hlegal
    exact ⟨_, hread.1 hlegal⟩

end Scene

/-! ### Descriptions -/

namespace Description

/-- The ids and labels of a text of characters that a document may have are of such characters. -/
theorem legal_captions {text : String} {g : Graph Float} (h : read text = .ok g)
    (htext : Xml.Legal text) : ∀ v ∈ g.captions, Xml.Legal v.1 ∧ Xml.Legal v.2 := by
  have hfeed : Xml.isChar '\n' := by decide
  have hchar : ∀ u ∈ g.nodes, ∀ c, c ∈ u.id.toList ∨ c ∈ u.label.toList → Xml.isChar c := by
    intro u hu c hc
    rcases read_characters h hu hc with hmem | rfl
    · exact htext c hmem
    · exact hfeed
  intro v hv
  obtain ⟨u, hu, rfl⟩ := List.mem_map.mp hv
  exact ⟨fun c hc => hchar u hu c (Or.inl hc), fun c hc => hchar u hu c (Or.inr hc)⟩

end Description

namespace Pipeline

variable {r : Resources} {c : Config} {text : String}

theorem run_ok {s : Scene} (h : (run r c text).result = .ok s) :
    ∃ g, (prepare r c text).result = .ok g ∧
      Scene.render (style c) (c.seed.getD r.freshSeed) g = .ok s := by
  unfold run at h
  dsimp only at h
  cases hprepare : (prepare r c text).result with
  | error fault =>
    rw [hprepare] at h
    cases h
  | ok g =>
    rw [hprepare] at h
    dsimp only at h
    cases hrender : Scene.render (style c) (c.seed.getD r.freshSeed) g with
    | error fault =>
      rw [hrender] at h
      cases h
    | ok s' =>
      rw [hrender] at h
      cases h
      exact ⟨g, rfl, hrender⟩

/-- **A rendered description can be read** if and only if the font family and its ids and labels are
of characters that a document may have; then all characters of the SVG text are such, and otherwise
some are not.  If the text of the description has no others, that comes down to the font family.
With the builtin engine, a description that is not rendered is faulty, or one of its labels has no
size, or a number stops a stroke. -/
theorem run_readable {settings : Settings} (hc : Config.ofSettings settings = .ok c)
    (r : Resources) (text : String) :
    (∃ fault, (run r c text).result = .error fault ∧ (c.engine = .builtin →
      (∃ f, Description.read text = .error f ∧ fault = .description f) ∨
      (∃ f, Unmeasured c text f ∧ fault = .measure f) ∨
      ∃ n, fault = .render (.stroke (.number n)) ∧ n.Arises Float)) ∨
    ∃ g s, Description.read text = .ok g ∧ (run r c text).result = .ok s ∧
      (Xml.Legal s.toSvg ↔
        Xml.Legal c.fontFamily ∧ ∀ v ∈ g.captions, Xml.Legal v.1 ∧ Xml.Legal v.2) ∧
      ((∃ root, Xml.read s.toSvg = some root) ↔ Xml.Legal s.toSvg) ∧
      (Xml.Legal text → (Xml.Legal s.toSvg ↔ Xml.Legal c.fontFamily)) := by
  cases hrun : (run r c text).result with
  | error fault => exact Or.inl ⟨fault, rfl, fun he => run_fault hc he hrun⟩
  | ok s =>
    obtain ⟨g', hprepare, hrender⟩ := run_ok hrun
    obtain ⟨g, hread, hcaptions, hj⟩ := prepare_ok hprepare
    have hlegal := Scene.legal_of_render hrender hj
    rw [hcaptions] at hlegal
    refine Or.inr ⟨g, s, hread, rfl, hlegal, Scene.read_of_render hrender, fun htext => ?_⟩
    rw [hlegal]
    exact and_iff_left (Description.legal_captions hread htext)

/-- A node whose id is a control character. -/
def controlSample : String := "digraph \x7b \"\x01\" \x7d"

theorem control_captions {g : Graph Float} (h : Description.read controlSample = .ok g) :
    g.captions = [("\x01", "\x01")] := by
  have hread : ((Description.read controlSample).toOption.map Graph.captions) =
      some [("\x01", "\x01")] := by decide +kernel
  rw [h] at hread
  exact Option.some.inj hread

/-- The description is rendered, and its scene cannot be read. -/
theorem run_readable_control : ∃ s, (run {} exactConfig controlSample).result = .ok s ∧
    ¬ Xml.Legal s.toSvg ∧ ¬ ∃ root, Xml.read s.toSvg = some root := by
  have hzero : Decimal.IsZero exactConfig.sketchiness := ⟨.positive, rfl⟩
  obtain ⟨scene, hscene⟩ : ∃ s, (run {} exactConfig controlSample).result = .ok s :=
    exists_run hzero (by decide +kernel)
  rcases run_readable ofSettings_exact {} controlSample with
    ⟨fault, hfault, -⟩ | ⟨g, s, hread, hs, hlegal, hroot, -⟩
  · rw [hscene] at hfault
    cases hfault
  · have hnot : ¬ Xml.Legal s.toSvg := by
      rw [hlegal, control_captions hread, List.forall_mem_singleton]
      have hcontrol : ¬ Xml.Legal "\x01" := by decide
      exact fun hall => hcontrol hall.2.1
    exact ⟨s, hs, hnot, mt hroot.mp hnot⟩

end Pipeline

end Scrawl
