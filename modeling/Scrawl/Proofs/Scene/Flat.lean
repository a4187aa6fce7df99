import Scrawl.Proofs.Random.Seeding
import Scrawl.Proofs.Scene.Strokes

/-!
# Scrawl.Proofs.Scene.Flat — drawings without roughness

Rendered without roughness a graph looks the same for all seeds, though its text is not: the straight
strokes of the arrow head and the rectangles are cubics whose control points lie somewhere on them,
as random numbers say.  The rest of the text is the same, and so is what stops the rendering.

* `SameButControls`: scenes that differ in these control points at most.
* `render_flat`: two seeds.
* `outline_blank`: the arrow head of a seed, which `toSvg_flat_ne` compares for two seeds.
-/

namespace Scrawl

open Stroke Decimal

namespace Scene

/-! ### Rendered graphs -/

/-- The scenes are of two drawings of the exact geometry, which are the same document but for the
control points of the straight strokes in the arrow head and the rectangles. -/
def SameButControls (g : Graph Float) (s s' : Scene) : Prop :=
  ∃ d d' : Drawing Float, s = ⟨document d, d.width, d.height⟩ ∧
    s' = ⟨document d', d'.width, d'.height⟩ ∧ Straight Random.Twister g d ∧
    Straight Random.Twister g d' ∧ document d.straightened = document d'.straightened

/-- **Without roughness the seed moves control points along straight strokes, and nothing else.**
For any two seeds a graph is rendered, or it is not and for the same reason.  If it is, both drawings
are of the exact geometry: curves and fillings go through their points, and every stroke of the arrow
head's outline and of a rectangle goes straight from corner to corner.  The two texts differ in the
control points of these strokes at most, which lie at a share of their side that a random number
says, and at twice that share. -/
theorem render_flat {style : Style Float} (hflat : IsZero style.sketchiness) (g : Graph Float)
    (seed seed' : ℤ) :
    SameOutcome (SameButControls g) (render style seed g) (render style seed' g) :=
  (sameOutcome_draw shareSource_twister shareSource_twister hflat g (Random.Twister.ofSeed seed)
    (Random.Twister.ofSeed seed')).bind fun d d' ⟨hd, hd', hsame⟩ =>
      .ok ⟨d, d', rfl, rfl, hd, hd', hsame⟩

/-- A style without roughness. -/
def exactStyle : Style Float := ⟨0.0, "xkcd-script", 16.0⟩

/-- Two nodes with an edge, as they are laid out. -/
def pairGraph : Graph Float :=
  { nodes := [⟨"a", "a", some 40.0, some 35.0, some 30.0, some 30.0⟩,
      ⟨"b", "b", some 40.0, some 35.0, some 30.0, some 110.0⟩]
    edges := [⟨"a", "b", [⟨30.0, 45.0⟩, ⟨30.0, 70.0⟩, ⟨30.0, 90.0⟩]⟩]
    marginX := 10.0, marginY := 10.0, nodeGap := 50.0, rankGap := 50.0
    width := some 60.0, height := some 140.0 }

/-- Two nodes with an edge are rendered for the seeds 0 and 1, and look the same. -/
theorem render_flat_pair : IsZero exactStyle.sketchiness ∧
    ∃ s s', render exactStyle 0 pairGraph = .ok s ∧ render exactStyle 1 pairGraph = .ok s' ∧
      SameButControls pairGraph s s' := by
  have hzero : IsZero exactStyle.sketchiness := ⟨.positive, rfl⟩
  have hquiet : (draw exactStyle Quiet.mk pairGraph).isOk = true := by decide +kernel
  obtain ⟨d, hd⟩ := exists_draw hzero hquiet (Random.Twister.ofSeed 0)
  obtain ⟨d', hd'⟩ := exists_draw hzero hquiet (Random.Twister.ofSeed 1)
  have hsame := render_flat hzero pairGraph 0 1
  rw [render_of_draw hd, render_of_draw hd'] at hsame
  cases hsame with
  | ok h => exact ⟨hzero, _, _, render_of_draw hd, render_of_draw hd', h⟩

/-! ### A moved control point -/

section Moved

variable {σ : Type} [Source σ Float]

/-- A closed path begins with a stroke of its first side. -/
theorem alongAt_of_linearPath (hshare : ShareSource σ) {pen : Pen Float}
    (hflat : IsZero pen.roughness) (hspread : Tame pen.spread) {p q : Point Float}
    {points : List (Point Float)} {closed : Bool} {s rest : σ} {path : Path Float}
    (h : pen.linearPath (p :: q :: points) closed s = (.ok path, rest)) :
    ∃ first others, path = first ++ others ∧
      AlongAt (0.2 + (Source.draw s).1 * 0.2) p q first := by
  obtain ⟨linePath, s₁, hlines, hclosing⟩ := bind_ok h
  obtain ⟨sidePath, s₂, hline, hothers⟩ := bind_ok hlines
  obtain ⟨otherPath, s₃, -, hjoined⟩ := bind_ok hothers
  obtain ⟨first, s₄, hfirst, hsecond⟩ := bind_ok hline
  obtain ⟨second, s₅, -, hpair⟩ := bind_ok hsecond
  have halong := alongAt_of_segment hshare hflat hspread hfirst
  obtain ⟨more, rfl⟩ : ∃ more, path = linePath ++ more := by
    cases closed with
    | false =>
      cases hclosing
      exact ⟨[], (List.append_nil _).symm⟩
    | true =>
      obtain ⟨last, _, -, hlast⟩ := bind_ok hclosing
      cases hlast
      exact ⟨_, rfl⟩
  cases hjoined
  cases hpair
  exact ⟨first, second ++ otherPath ++ more, by simp only [List.append_assoc], halong⟩

/-- The first stroke of the arrow head is made of the ninth random number. -/
theorem alongAt_of_draw (hshare : ShareSource σ) {style : Style Float}
    (hflat : IsZero style.sketchiness) {s : σ} {g : Graph Float} {d : Drawing Float}
    (h : draw style s g = .ok d) :
    ∃ first others, d.arrowOutline = first ++ others ∧
      AlongAt (0.2 + Source.nth 8 s * 0.2) ⟨0.0, 0.0⟩ ⟨10.0, 4.0⟩ first := by
  obtain ⟨r, hresolve, -⟩ := draw_parts h
  rw [draw_eq hresolve] at h
  split_ifs at h
  obtain ⟨head, -, h⟩ := Description.ok_of_bind_ok h
  obtain ⟨⟨⟨arrowFill, arrowOutline⟩, left⟩, harrow, h⟩ := Description.ok_of_bind_ok h
  obtain ⟨nodes, -, h⟩ := Description.ok_of_bind_ok h
  obtain ⟨edges, -, h⟩ := Description.ok_of_bind_ok h
  cases h
  obtain ⟨fill, s₁, hfill, hrest⟩ := bind_ok (ok_of_runSketch harrow)
  obtain ⟨outline, s₂, houtline, hpair⟩ := bind_ok hrest
  obtain rfl := (takes_outline _ _).rest_eq hfill
  have hfine : IsZero (arrowPen style.sketchiness).roughness := hflat
  have hfirst := alongAt_of_linearPath hshare hfine (tame_arrowPen _).1 houtline
  cases hpair
  exact hfirst

end Moved

/-- The text of a path that begins with a curve. -/
theorem pathText_curve (start c d finish : Point Float) (rest : Path Float) :
    ∃ text, pathText (.move start :: .cubic c d finish :: rest) =
      "M" ++ (Svg.number start.x ++ " " ++ Svg.number start.y) ++ " " ++
        ("C" ++ (Svg.number c.x ++ " " ++ text)) := by
  have hrest : ∀ (a : String) (as : List String),
      ∃ text, " ".intercalate (a :: as) = a ++ text := by
    rintro a (_ | ⟨b, bs⟩)
    · exact ⟨"", by rw [String.intercalate_singleton, String.append_empty]⟩
    · exact ⟨_, by rw [String.intercalate_cons_cons, String.append_assoc]⟩
  obtain ⟨text, htext⟩ := hrest (stepText (.cubic c d finish)) (rest.map stepText)
  have hmove : stepText (.move start) =
      "M" ++ (Svg.number start.x ++ " " ++ Svg.number start.y) := by
    rw [stepText, Step.points, pointsText, List.flatMap_singleton, String.intercalate_cons_cons,
      String.intercalate_singleton]
  obtain ⟨others, hothers⟩ : ∃ text, stepText (.cubic c d finish) =
      "C" ++ (Svg.number c.x ++ " " ++ text) := by
    rw [stepText, Step.points, pointsText, List.flatMap_cons, List.cons_append, List.cons_append,
      String.intercalate_cons_cons]
    exact ⟨_, by rw [String.append_assoc]⟩
  refine ⟨others ++ text, ?_⟩
  rw [pathText, List.map_cons, List.map_cons, String.intercalate_cons_cons, htext, hmove, hothers]
  simp only [String.append_assoc]

/-- Documents with one text have one outline of the arrow head. -/
theorem pathText_of_render_eq {g : Graph Float} {d d' : Drawing Float} (hd : Draws g d)
    (hd' : Draws g d') (hfamily : Xml.Legal d.fontFamily) (hfamily' : Xml.Legal d'.fontFamily)
    (hnodes : ∀ v ∈ g.nodes, Xml.Legal v.id ∧ Xml.Legal v.label ∧ '\r' ∉ v.label.toList)
    (hedges : ∀ e ∈ g.edges, Xml.Legal e.source ∧ Xml.Legal e.target)
    (h : (document d).render = (document d').render) :
    pathText d.arrowOutline = pathText d'.arrowOutline := by
  obtain ⟨root, hroot, htree, -⟩ := read_document hd hfamily hnodes hedges
  obtain ⟨root', hroot', htree', -⟩ := read_document hd' hfamily' hnodes hedges
  rw [h, hroot'] at hroot
  obtain rfl := Option.some.inj hroot
  rw [htree] at htree'
  simp only [document, marker, pathElement, Svg.Element.tree, Svg.Element.treeOf,
    Xml.Node.element.injEq, Xml.Tag.mk.injEq, List.cons.injEq, List.cons_append, Prod.mk.injEq,
    true_and, and_true] at htree'
  exact htree'.2.1.2

/-- A graph without nodes, as it is laid out. -/
def blankGraph : Graph Float :=
  { nodes := [], edges := [], marginX := 10.0, marginY := 10.0, nodeGap := 50.0, rankGap := 50.0
    width := some 20.0, height := some 20.0 }

/-- The arrow head of the graph without nodes, by the text of its first control point. -/
theorem outline_blank {seed : ℕ} (hseed : seed < 4294967296) {d : Drawing Float}
    (h : draw exactStyle (Random.Twister.ofSeed seed) blankGraph = .ok d) :
    ∃ text, pathText d.arrowOutline = "M" ++ ("0" ++ " " ++ "0") ++ " " ++ ("C" ++
      (Svg.number (0.0 + (10.0 - 0.0) * (0.2 + Random.Twister.numberOf
        (Random.Twister.output (UInt32.ofNat seed) 16)
        (Random.Twister.output (UInt32.ofNat seed) 17) * 0.2)) ++ " " ++ text)) := by
  have hzero : IsZero exactStyle.sketchiness := ⟨.positive, rfl⟩
  have horigin : Svg.number 0.0 = "0" := by decide +kernel
  obtain ⟨first, others, houtline, halong⟩ := alongAt_of_draw shareSource_twister hzero h
  rw [Random.Twister.nth_ofSeed hseed (by decide) (by decide)] at halong
  obtain ⟨hstart, hleaves, -, -⟩ := halong
  have hx := number_of_alike hstart.1
  have hy := number_of_alike hstart.2
  have hcontrol := number_of_alike hleaves.1
  rw [houtline, List.cons_append, List.cons_append, List.nil_append]
  obtain ⟨text, htext⟩ := pathText_curve _ _ _ _ others
  refine ⟨text, htext.trans ?_⟩
  rw [hx, hy, hcontrol, horigin]

/-- **The text is not the same for all seeds.**  Even a graph without nodes has an arrow head, and
its first control point is elsewhere for another seed. -/
theorem toSvg_flat_ne : IsZero exactStyle.sketchiness ∧ blankGraph.geometryFault? = none ∧
    ∃ s s', render exactStyle 0 blankGraph = .ok s ∧ render exactStyle 1 blankGraph = .ok s' ∧
      s.toSvg ≠ s'.toSvg := by
  have hzero : IsZero exactStyle.sketchiness := ⟨.positive, rfl⟩
  have hquiet : (draw exactStyle Quiet.mk blankGraph).isOk = true := by decide +kernel
  obtain ⟨d, hd⟩ := exists_draw hzero hquiet (Random.Twister.ofSeed (0 : ℕ))
  obtain ⟨d', hd'⟩ := exists_draw hzero hquiet (Random.Twister.ofSeed (1 : ℕ))
  refine ⟨hzero, rfl, _, _, render_of_draw hd, render_of_draw hd', fun hsame => ?_⟩
  have hfamily : Xml.Legal exactStyle.fontFamily := by decide
  obtain ⟨hdraws, hfont⟩ := draw_ok hd
  obtain ⟨hdraws', hfont'⟩ := draw_ok hd'
  have htexts := pathText_of_render_eq hdraws hdraws' (hfont ▸ hfamily) (hfont' ▸ hfamily)
    (fun v hv => absurd hv List.not_mem_nil) (fun e he => absurd he List.not_mem_nil) hsame
  obtain ⟨text, htext⟩ := outline_blank (by decide) hd
  obtain ⟨text', htext'⟩ := outline_blank (by decide) hd'
  have hwords : Random.Twister.output (UInt32.ofNat 0) 16 = 2046968324 ∧
      Random.Twister.output (UInt32.ofNat 0) 17 = 1537810351 := by decide +kernel
  have hwords' : Random.Twister.output (UInt32.ofNat 1) 16 = 403123852 ∧
      Random.Twister.output (UInt32.ofNat 1) 17 = 2095328386 := by decide +kernel
  have hcontrol : Svg.number (0.0 + (10.0 - 0.0) *
      (0.2 + Random.Twister.numberOf 2046968324 1537810351 * 0.2)) = "2.953" := by decide +kernel
  have hcontrol' : Svg.number (0.0 + (10.0 - 0.0) *
      (0.2 + Random.Twister.numberOf 403123852 2095328386 * 0.2)) = "2.188" := by decide +kernel
  rw [hwords.1, hwords.2, hcontrol] at htext
  rw [hwords'.1, hwords'.2, hcontrol'] at htext'
  rw [htext, htext'] at htexts
  have hchars := congrArg String.toList htexts
  simp [String.toList_append] at hchars

end Scene

end Scrawl
