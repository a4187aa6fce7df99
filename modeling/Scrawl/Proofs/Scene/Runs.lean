import Scrawl.Proofs.Stroke.Flat

/-!
# Scrawl.Proofs.Scene.Runs — drawings of two sources

A graph is drawn without roughness from two sources.  Both drawings stop for the same reason, or
they are of the exact geometry and are told apart by the control points of straight strokes.  So a
graph that one source draws is drawn by every source, and one source is enough to know it.

* `draw_eq`: a drawing as four sketches, one after the other.
* `sameOutcome_draw`: the two drawings.
* `exists_render`, `exists_run`: what one source draws is rendered for all seeds.
-/

namespace Scrawl

open Stroke Decimal

/-! ### Outcomes -/

namespace Stroke.SameOutcome

variable {ε β β' γ γ' : Type} {r : β → γ → Prop} {r' : β' → γ' → Prop}

theorem bind {x : Except ε β} {y : Except ε γ} {f : β → Except ε β'} {g : γ → Except ε γ'}
    (h : SameOutcome r x y) (hf : ∀ b c, r b c → SameOutcome r' (f b) (g c)) :
    SameOutcome r' (x >>= f) (y >>= g) := by
  cases h with
  | ok h => exact hf _ _ h
  | error fault => exact .error fault

end Stroke.SameOutcome

namespace Scene

/-! ### Texts -/

theorem stepText_of_alike {s t : Step Float} (h : AlikeStep s t) : stepText s = stepText t := by
  have hpoints : ∀ {ps qs : List (Point Float)}, List.Forall₂ AlikePoint ps qs →
      pointsText ps = pointsText qs := by
    intro ps qs h
    rw [pointsText, pointsText]
    congr 1
    induction h with
    | nil => rfl
    | cons hp _ ih =>
      rw [List.flatMap_cons, List.flatMap_cons, ih, number_of_alike hp.1, number_of_alike hp.2]
  cases h with
  | move h => exact congrArg ("M" ++ ·) (hpoints (.cons h .nil))
  | line h => exact congrArg ("L" ++ ·) (hpoints (.cons h .nil))
  | cubic hc hd hp => exact congrArg ("C" ++ ·) (hpoints (.cons hc (.cons hd (.cons hp .nil))))
  | close => rfl

theorem pathText_of_alike {path path' : Path Float} (h : AlikePath path path') :
    pathText path = pathText path' := by
  rw [pathText, pathText]
  congr 1
  induction h with
  | nil => rfl
  | cons h _ ih => rw [List.map_cons, List.map_cons, stepText_of_alike h, ih]

theorem pathText_of_bothAlike {path a b : Path Float} (h : BothAlike path a b) :
    pathText a = pathText b :=
  (pathText_of_alike h.1).trans (pathText_of_alike h.2).symm

/-- Two straight drawings of the same sides are told apart by their control points. -/
theorem pathText_straightened {σ τ : Type} [Source σ Float] [Source τ Float]
    {sides : List (Point Float × Point Float)} {a b : Path Float} (h : BothAlong σ τ sides a b) :
    pathText (a.map Step.straightened) = pathText (b.map Step.straightened) :=
  pathText_of_bothAlike ⟨alikePath_straightened h.1, alikePath_straightened h.2⟩

/-! ### Drawings of two runs -/

/-- The node with straight lines in its rectangle. -/
def NodeShape.straightened (v : NodeShape Float) : NodeShape Float :=
  { v with outline := v.outline.map Step.straightened }

/-- The drawing with straight lines in its arrow head and its rectangles. -/
def Drawing.straightened (d : Drawing Float) : Drawing Float :=
  { d with
    arrowOutline := d.arrowOutline.map Step.straightened
    nodes := d.nodes.map NodeShape.straightened }

/-- The sides of a node's rectangle. -/
def sidesOfNode (size : Float × Float) (center : Point Float) : List (Point Float × Point Float) :=
  closedSides (Pen.corners (center.x - size.1 / 2.0) (topOf center.y size.2) size.1 size.2)

/-- The drawing is of the exact geometry, up to the signs of zeros: the arrow head and the rectangle
of each node are straight strokes along their sides, and fillings and curves go through the points
that they are given. -/
structure Straight (σ : Type) [Source σ Float] (g : Graph Float) (d : Drawing Float) : Prop where
  fill : AlikePath d.arrowFill (outlinePath arrowCorners)
  arrow : Strokes (Along σ) (closedSides arrowCorners) d.arrowOutline
  nodes : List.Forall₂ (fun v shape => ∃ size center, v.size? = some size ∧
    v.center? = some center ∧ Strokes (Along σ) (sidesOfNode size center) shape.outline)
    g.nodes d.nodes
  edges : List.Forall₂ (fun e shape =>
    AlikePath shape.path (smoothPath e.points ++ smoothPath e.points)) g.edges d.edges

section Runs

variable {σ τ : Type}

theorem sameOutcome_runSketch {β γ : Type} {r : β → γ → Prop} {x : Sketch σ β} {y : Sketch τ γ}
    (h : Parallel r x y) (s : σ) (t : τ) :
    SameOutcome (fun b c => r b.1 c.1) (runSketch x s : Except (RenderFault Float) (β × σ))
      (runSketch y t) := by
  have hst := h s t
  unfold runSketch
  rcases hx : x s with ⟨b | b, rest⟩ <;> rcases hy : y t with ⟨c | c, rest'⟩ <;>
    rw [hx, hy] at hst <;> cases hst
  · exact .error _
  · exact .ok ‹_›

theorem parallel_drawHead (width height fontSize : Float) :
    Parallel Eq (drawHead width height fontSize : Sketch σ (Float × Float × Float))
      (drawHead width height fontSize : Sketch τ (Float × Float × Float)) := by
  have hwritten : ∀ a : Float,
      Parallel Eq (written a : Sketch σ Float) (written a : Sketch τ Float) := by
    intro a
    refine (parallel_written rfl).mono ?_
    rintro _ _ ⟨rfl, rfl, -⟩
    rfl
  refine (hwritten width).bind ?_
  rintro width _ rfl
  refine (hwritten height).bind ?_
  rintro height _ rfl
  refine (hwritten fontSize).bind ?_
  rintro fontSize _ rfl
  exact Parallel.pure rfl

variable [Source σ Float] [Source τ Float] (hshare : ShareSource σ) (hshare' : ShareSource τ)
  {pen : Pen Float} (hflat : IsZero pen.roughness)
include hshare hshare' hflat

theorem parallel_drawArrow (hspread : Tame pen.spread) (hquarter : Tame (pen.spread / 4.0))
    (hfinite : (pen.spread / 4.0).isFinite) :
    Parallel (fun a b => BothAlike (outlinePath arrowCorners) a.1 b.1 ∧
        BothAlong σ τ (closedSides arrowCorners) a.2 b.2)
      (drawArrow pen : Sketch σ (Path Float × Path Float))
      (drawArrow pen : Sketch τ (Path Float × Path Float)) :=
  (parallel_outline hshare hshare' hflat hquarter hfinite _).bind fun _ _ hfill =>
    (parallel_linearPath hshare hshare' hflat hspread _).bind fun _ _ houtline =>
      Parallel.pure ⟨hfill, houtline⟩

/-- A node is drawn alike but for the control points of its rectangle. -/
theorem parallel_drawNode (hspread : Tame pen.spread) (id label : String) (size : Float × Float)
    (center : Point Float) :
    Parallel (fun v w => Strokes (Along σ) (sidesOfNode size center) v.outline ∧
        Strokes (Along τ) (sidesOfNode size center) w.outline ∧
        nodeElement v.straightened = nodeElement w.straightened)
      (drawNode pen id label size center : Sketch σ (NodeShape Float))
      (drawNode pen id label size center : Sketch τ (NodeShape Float)) := by
  have hself : AlikePoint center center := ⟨Alike.refl _, Alike.refl _⟩
  refine (parallel_linearPath hshare hshare' hflat hspread _).bind fun a b hsides => ?_
  refine (parallel_writtenPoint hself hself).bind fun c c' ⟨hcenter, hcenter'⟩ =>
    Parallel.pure ⟨hsides.1, hsides.2, ?_⟩
  have houtline := pathText_straightened hsides
  have hx := (number_of_alike hcenter.1).trans (number_of_alike hcenter'.1).symm
  have hy := (number_of_alike hcenter.2).trans (number_of_alike hcenter'.2).symm
  simp only [nodeElement, NodeShape.straightened, labelElement, pathElement, houtline, hx, hy]

/-- An edge is drawn alike. -/
theorem parallel_drawEdge (e : Edge Float) :
    Parallel (fun a b => AlikePath a.path (smoothPath e.points ++ smoothPath e.points) ∧
        AlikePath b.path (smoothPath e.points ++ smoothPath e.points) ∧
        edgeElement a = edgeElement b)
      (drawEdge pen e : Sketch σ (EdgeShape Float))
      (drawEdge pen e : Sketch τ (EdgeShape Float)) := by
  refine (parallel_curve hshare hshare' hflat e.points).bind fun a b hpath =>
    Parallel.pure ⟨hpath.1, hpath.2, ?_⟩
  simp only [edgeElement, pathElement, pathText_of_bothAlike hpath]

omit [Source τ Float] hshare hshare' hflat in
/-- A graph with all its geometry is drawn in four sketches. -/
theorem draw_eq {style : Style Float} {g : Graph Float} {r : Resolved Float}
    (h : resolve g = .ok r) (s : σ) :
    draw style s g = if style.sketchiness < 0.0 then .error (.roughness style.sketchiness) else
      runSketch (drawHead r.width r.height style.fontSize) s >>= fun head =>
      runSketch (drawArrow (arrowPen style.sketchiness)) s >>= fun arrow =>
      runSketch (r.nodes.mapM fun (id, label, size, center) =>
        drawNode (mainPen style.sketchiness) id label size center) s >>= fun nodes =>
      runSketch (r.edges.mapM (drawEdge (mainPen style.sketchiness))) nodes.2 >>= fun edges =>
      .ok ⟨head.1.1, head.1.2.1, style.fontFamily, head.1.2.2, arrow.1.1, arrow.1.2, nodes.1,
        edges.1⟩ := by
  unfold draw
  rw [h]
  dsimp only [Except.mapError, bind, Except.bind]
  split_ifs <;> rfl

omit [Source σ Float] [Source τ Float] hshare hshare' hflat in
theorem tame_mainPen (roughness : Float) : Tame (mainPen roughness).spread :=
  tame_of_le (by rw [mainPen, doubleValue_two]; norm_num)

omit [Source σ Float] [Source τ Float] hshare hshare' hflat in
theorem tame_arrowPen (roughness : Float) :
    Tame (arrowPen roughness).spread ∧ Tame ((arrowPen roughness).spread / 4.0) := by
  have hspread : unpacked 0.5 = .finite .positive 4503599627370496 (-53) (by decide) := rfl
  have hquarter : unpacked (0.5 / 4.0) = .finite .positive 4503599627370496 (-55) (by decide) := rfl
  constructor <;> refine tame_of_le ?_
  · rw [arrowPen, doubleValue_of_unpacked hspread]
    norm_num
  · rw [arrowPen, doubleValue_of_unpacked hquarter]
    norm_num

omit [Source τ Float] hshare hshare' hflat in
/-- Strokes along the rectangles of resolved nodes are along those of the nodes. -/
theorem sides_of_resolved {g : Graph Float} {r : Resolved Float} (h : resolve g = .ok r)
    {shapes : List (NodeShape Float)} (hshapes : List.Forall₂ (fun n v =>
      Strokes (Along σ) (sidesOfNode n.2.2.1 n.2.2.2) v.outline) r.nodes shapes) :
    List.Forall₂ (fun v shape => ∃ size center, v.size? = some size ∧ v.center? = some center ∧
      Strokes (Along σ) (sidesOfNode size center) shape.outline) g.nodes shapes := by
  obtain ⟨hresolved, -, -⟩ := resolve_parts h
  refine forall₂_trans hresolved hshapes ?_
  rintro v n shape ⟨size, center, hsize, hcenter, rfl⟩ hstrokes
  exact ⟨size, center, hsize, hcenter, hstrokes⟩

omit hflat in
/-- **Drawings without roughness** are alike but for the control points of straight strokes. -/
theorem sameOutcome_draw {style : Style Float} (hflat : IsZero style.sketchiness) (g : Graph Float)
    (s : σ) (t : τ) :
    SameOutcome (fun d d' => Straight σ g d ∧ Straight τ g d' ∧
      document d.straightened = document d'.straightened) (draw style s g) (draw style t g) := by
  cases hresolve : resolve g with
  | error fault =>
    unfold draw
    rw [hresolve]
    exact .error _
  | ok r =>
    obtain ⟨-, hgraph, -⟩ := resolve_parts hresolve
    rw [draw_eq hresolve, draw_eq hresolve]
    split_ifs
    · exact .error _
    have hfine : IsZero (arrowPen style.sketchiness).roughness := hflat
    have hcoarse : IsZero (mainPen style.sketchiness).roughness := hflat
    have hhead := parallel_drawHead (σ := σ) (τ := τ) r.width r.height style.fontSize
    have hquarter : ((0.5 : Float) / 4.0).isFinite := rfl
    obtain ⟨hspread, hspread'⟩ := tame_arrowPen style.sketchiness
    have harrow := parallel_drawArrow hshare hshare' hfine hspread hspread' hquarter
    have hnodes := Parallel.mapM (l := r.nodes) fun n _ =>
      parallel_drawNode hshare hshare' hcoarse (tame_mainPen _) n.1 n.2.1 n.2.2.1 n.2.2.2
    have hedges := Parallel.mapM (l := r.edges) fun e _ =>
      parallel_drawEdge hshare hshare' hcoarse e
    refine (sameOutcome_runSketch hhead s t).bind fun head head' hhead => ?_
    refine (sameOutcome_runSketch harrow s t).bind fun arrow arrow' harrow => ?_
    refine (sameOutcome_runSketch hnodes s t).bind fun nodes nodes' hnodes => ?_
    refine (sameOutcome_runSketch hedges _ _).bind fun edges edges' hedges => .ok ?_
    obtain ⟨hleft, hright, hshapes⟩ := hnodes
    obtain ⟨hcurve, hcurve', hedges⟩ := hedges
    rw [hgraph] at hcurve hcurve'
    refine ⟨⟨harrow.1.1, harrow.2.1, sides_of_resolved hresolve hleft, hcurve⟩,
      ⟨harrow.1.2, harrow.2.2, sides_of_resolved hresolve hright, hcurve'⟩, ?_⟩
    have houtline := pathText_straightened harrow.2
    have hshapes : nodes.1.map (nodeElement ∘ NodeShape.straightened) =
        nodes'.1.map (nodeElement ∘ NodeShape.straightened) :=
      map_eq_of_forall₂ hshapes fun _ _ h => h
    have hcurves : edges.1.map edgeElement = edges'.1.map edgeElement :=
      map_eq_of_forall₂ hedges fun _ _ h => h
    simp only [document, Drawing.straightened, marker, pathElement, List.map_map, hhead,
      pathText_of_bothAlike harrow.1, houtline, hcurves, hshapes]

end Runs

/-- A source whose numbers are all zero. -/
structure Quiet

instance : Source Quiet Float := ⟨fun s => (0.0, s)⟩

theorem shareSource_quiet : ShareSource Quiet := by
  intro s
  have hzero : doubleValue 0.0 = 0 := rfl
  have hfinite : (0.0 : Float).isFinite := rfl
  exact ⟨hfinite, hzero.ge, hzero.trans_le (by norm_num)⟩

/-- What the quiet source draws of a graph without a fault, the generator does from every state. -/
theorem exists_draw {style : Style Float} (hflat : IsZero style.sketchiness) {g : Graph Float}
    (h : (draw style Quiet.mk g).isOk = true) (t : Random.Twister) :
    ∃ d, draw style t g = .ok d := by
  have hsame := sameOutcome_draw shareSource_twister shareSource_quiet hflat g t Quiet.mk
  cases ht : draw style t g with
  | ok d => exact ⟨d, rfl⟩
  | error fault =>
    generalize draw style Quiet.mk g = drawn at h hsame
    rw [ht] at hsame
    cases hsame
    cases h

theorem render_of_draw {style : Style Float} {g : Graph Float} {seed : ℤ} {d : Drawing Float}
    (h : draw style (Random.Twister.ofSeed seed) g = .ok d) :
    render style seed g = .ok ⟨document d, d.width, d.height⟩ := by
  rw [render, h]
  rfl

/-- What the quiet source draws of a graph without a fault is rendered for all seeds. -/
theorem exists_render {style : Style Float} (hflat : IsZero style.sketchiness) {g : Graph Float}
    (h : (draw style Quiet.mk g).isOk = true) (seed : ℤ) :
    ∃ scene, render style seed g = .ok scene := by
  obtain ⟨d, hd⟩ := exists_draw hflat h (Random.Twister.ofSeed seed)
  exact ⟨_, render_of_draw hd⟩

end Scene

/-! ### Descriptions without roughness -/

namespace Pipeline

/-- What is prepared and drawn without roughness is rendered for all seeds. -/
theorem exists_run {r : Resources} {c : Config} {text : String}
    (hflat : Decimal.IsZero c.sketchiness) (h : ((prepare r c text).result.toOption.any fun g =>
      (Scene.draw (style c) Scene.Quiet.mk g).isOk) = true) :
    ∃ s, (run r c text).result = .ok s := by
  cases hprepare : (prepare r c text).result with
  | error fault =>
    rw [hprepare] at h
    cases h
  | ok g =>
    rw [hprepare] at h
    have hstyle : Decimal.IsZero (style c).sketchiness := hflat
    have hdraw : (Scene.draw (style c) Scene.Quiet.mk g).isOk = true := h
    obtain ⟨s, hs⟩ := Scene.exists_render hstyle hdraw (c.seed.getD r.freshSeed)
    refine ⟨s, ?_⟩
    simp only [run, hprepare, hs]

/-- No roughness, and a font with which the rectangle of a line has sides with exact squares. -/
def exactConfig : Config := { engine := .builtin, sketchiness := 0.0, fontSize := 12.0 }

theorem ofSettings_exact : Config.ofSettings
    { sketchiness := some 0.0, fontSize := some 12.0, engine := some "builtin" } =
      .ok exactConfig := rfl

end Pipeline

end Scrawl
