import Scrawl.Proofs.Layered.Margins
import Scrawl.Proofs.Layered.Routing
import Scrawl.Proofs.Stroke.Ink

/-!
# Scrawl.Proofs.Scene.Outlines — the rectangles of the nodes in the view box

The rectangle of a node is drawn a fourteenth of its height above the box that the layout has
placed, so that it may overrun the margin, and the view box, by that much.

* `forall₂_outline`: without roughness the outline of a node is its rectangle.
* `draw_outlines`: where the rectangles of a drawing are.
* `pillar_overruns`: a high node that is not in view.
-/

namespace Scrawl.Scene

open Set Stroke

/-- The view box of the drawing holds the point. -/
def Drawing.Shows (d : Drawing ℝ) (r : Point ℝ) : Prop :=
  r.x ∈ Icc 0 d.width ∧ r.y ∈ Icc 0 d.height

/-! ### Rectangles -/

section Rectangle

variable {x y width height : ℝ} {r : Point ℝ}

/-- The point is on a side of the rectangle. -/
def OnRectangle (x y width height : ℝ) (r : Point ℝ) : Prop :=
  ∃ side ∈ closedSides (Pen.corners x y width height), OnLine side.1 side.2 r

theorem OnRectangle.mem_Icc (h : OnRectangle x y width height r) {a b : ℝ} :
    (x ∈ Icc a b → x + width ∈ Icc a b → r.x ∈ Icc a b) ∧
      (y ∈ Icc a b → y + height ∈ Icc a b → r.y ∈ Icc a b) := by
  obtain ⟨side, hside, hline⟩ := h
  have hcorner : ∀ p ∈ Pen.corners x y width height,
      (p.x = x ∨ p.x = x + width) ∧ (p.y = y ∨ p.y = y + height) := by
    simp [Pen.corners]
  obtain ⟨hfrom, hto⟩ := mem_of_mem_closedSides hside
  constructor
  · intro hx hx'
    refine hline.mem_Icc.1 ?_ ?_
    · rcases (hcorner _ hfrom).1 with h | h <;> rwa [h]
    · rcases (hcorner _ hto).1 with h | h <;> rwa [h]
  · intro hy hy'
    refine hline.mem_Icc.2 ?_ ?_
    · rcases (hcorner _ hfrom).2 with h | h <;> rwa [h]
    · rcases (hcorner _ hto).2 with h | h <;> rwa [h]

theorem onRectangle_corner : OnRectangle x y width height ⟨x, y⟩ :=
  ⟨_, List.mem_cons_self, onLine_start _ _⟩

/-- The rectangle of a node begins a fourteenth of its height above its box. -/
theorem topOf_eq (y h : ℝ) : topOf y h = y - h / 2 - h / 14 := by
  norm_num [topOf]
  ring

/-- A rectangle drawn for a box stands over it by a fourteenth of the height. -/
theorem mem_Icc_of_withinMargins {w h marginX marginY : ℝ} {size : ℝ × ℝ} {c : Point ℝ}
    (hbox : Layered.WithinMargins marginX marginY size (Node.boxAt w h c))
    (hr : OnRectangle (c.x - w / 2) (topOf c.y h) w h r) :
    r.x ∈ Icc marginX (size.1 - marginX) ∧
      r.y ∈ Icc (marginY - |h| / 14) (size.2 - marginY + |h| / 14) := by
  obtain ⟨⟨hleft, hleft'⟩, ⟨hright, hright'⟩, ⟨htop, htop'⟩, ⟨hbottom, hbottom'⟩⟩ := hbox
  norm_num only [Node.boxAt] at hleft hleft' hright hright' htop htop' hbottom hbottom'
  have hlow := neg_abs_le h
  have hhigh := le_abs_self h
  rw [topOf_eq] at hr
  refine ⟨hr.mem_Icc.1 ⟨?_, ?_⟩ ⟨?_, ?_⟩, hr.mem_Icc.2 ⟨?_, ?_⟩ ⟨?_, ?_⟩⟩ <;> linarith

end Rectangle

/-! ### Nodes -/

section Outline

variable {σ : Type} [Source σ ℝ] (hunit : UnitSource σ) {style : Style ℝ}
  (hflat : style.sketchiness = 0)
include hunit hflat

/-- **Without roughness the outline of a node is its rectangle.** -/
theorem gives_outline (id label : String) (size : ℝ × ℝ) (center : Point ℝ) :
    Gives (fun shape => shape.id = id ∧ ∀ r, Inked r shape.outline ↔
        OnRectangle (center.x - size.1 / 2) (topOf center.y size.2) size.1 size.2 r)
      (drawNode (mainPen style.sketchiness) id label size center : Sketch σ (NodeShape ℝ)) := by
  have htwo : (2.0 : ℝ) = 2 := by norm_num
  have hspread : 0 ≤ (mainPen style.sketchiness).spread := by norm_num [mainPen]
  unfold drawNode
  rw [htwo]
  exact (gives_rectangle hunit hflat hspread _ _ _ _).bind fun _ hink =>
    (Gives.anything _).bind fun _ _ => Gives.pure ⟨rfl, hink⟩

/-- The outlines of a drawing are the rectangles of the nodes. -/
theorem forall₂_outline {source : σ} {g : Graph ℝ} {d : Drawing ℝ}
    (h : draw style source g = .ok d) :
    List.Forall₂ (fun v shape => ∃ w h c, v.size? = some (w, h) ∧ v.center? = some c ∧
      shape.id = v.id ∧ ∀ r, Inked r shape.outline ↔
        OnRectangle (c.x - w / 2) (topOf c.y h) w h r) g.nodes d.nodes := by
  refine (forall₂_drawNode (gives_outline hunit hflat) h).imp fun v shape hshape => ?_
  obtain ⟨size, center, hsize, hcenter, hid, hink⟩ := hshape
  exact ⟨size.1, size.2, center, hsize, hcenter, hid, hink⟩

end Outline

/-- A drawing has the size of its graph. -/
theorem size_of_draw {σ : Type} [Source σ ℝ] {style : Style ℝ} {source : σ} {g : Graph ℝ}
    {d : Drawing ℝ} (h : draw style source g = .ok d) :
    g.width = some d.width ∧ g.height = some d.height := by
  obtain ⟨r, hresolve, -, ⟨rest, hhead⟩, -⟩ := draw_parts h
  obtain ⟨-, -, hwidth, hheight⟩ := resolve_parts hresolve
  have hsizes := (Prod.mk.inj (Except.ok.inj hhead)).1
  exact ⟨hwidth.trans (congrArg (fun head => some head.1) hsizes),
    hheight.trans (congrArg (fun head => some head.2.1) hsizes)⟩

/-! ### Layouts -/

/-- **Where the rectangles of a drawing are.**  Let the edges of a graph join its nodes, its nodes
have sizes and its margins be not negative.  It is laid out and drawn, and without roughness the
outline of every node keeps the margins across, and up and down it overruns them by a fourteenth of
the height of the node at most.  So a node is in view if it is not higher than fourteen margins; and
a node is in view if and only if its rectangle does not begin above the view box. -/
theorem draw_outlines {σ : Type} [Source σ ℝ] (hunit : UnitSource σ) (source : σ) {style : Style ℝ}
    (hflat : style.sketchiness = 0) {g : Graph ℝ} (hj : g.Joined) (hs : g.sizeFault? = none)
    (hx : 0 ≤ g.marginX) (hy : 0 ≤ g.marginY) :
    ∃ g' size d, Layered.layout g = .ok (g', size) ∧ draw style source g' = .ok d ∧
      (d.width, d.height) = size ∧
      List.Forall₂ (fun v shape => ∃ w h c, v.size? = some (w, h) ∧ v.center? = some c ∧
        shape.id = v.id ∧
        (∀ r, Inked r shape.outline → r.x ∈ Icc g.marginX (d.width - g.marginX) ∧
          r.y ∈ Icc (g.marginY - |h| / 14) (d.height - g.marginY + |h| / 14)) ∧
        (|h| ≤ 14 * g.marginY → ∀ r, Inked r shape.outline → d.Shows r) ∧
        (0 ≤ h → ((∀ r, Inked r shape.outline → d.Shows r) ↔ h / 1.75 ≤ c.y)))
        g'.nodes d.nodes := by
  obtain ⟨g', size, hl, hgeometry⟩ := Layered.layout_complete hj hs
  obtain ⟨d, hd⟩ : ∃ d, draw style source g' = .ok d :=
    exists_draw_real source hgeometry (by norm_num [hflat])
  have hsize : (d.width, d.height) = size := by
    obtain ⟨hwidth, hheight⟩ := size_of_draw hd
    obtain ⟨hwidth', hheight'⟩ := Layered.size_of_layout hl
    exact Prod.ext (Option.some.inj (hwidth.symm.trans hwidth'))
      (Option.some.inj (hheight.symm.trans hheight'))
  refine ⟨g', size, d, hl, hd, hsize, ?_⟩
  have hboxes := (Layered.layout_margins hl).1
  refine ((List.forall₂_and_left _ _).mpr ⟨hboxes, forall₂_outline hunit hflat hd⟩).imp ?_
  rintro v shape ⟨hbox, w, h, c, hvsize, hcenter, hid, hink⟩
  have hbox := hbox _ (Node.box?_eq_some.mpr ⟨w, h, c, hvsize, hcenter, rfl⟩)
  rw [← hsize] at hbox
  have hover := fun r hr => mem_Icc_of_withinMargins hbox ((hink r).mp hr)
  refine ⟨w, h, c, hvsize, hcenter, hid, hover, fun hlow r hr => ?_, fun hh => ⟨fun hall => ?_,
    fun htop r hr => ?_⟩⟩
  · obtain ⟨⟨hleft, hright⟩, htop, hbottom⟩ := hover r hr
    exact ⟨⟨by linarith, by linarith⟩, by linarith, by linarith⟩
  · have hcorner := (hall _ ((hink _).mpr onRectangle_corner)).2.1
    exact sub_nonneg.mp hcorner
  · obtain ⟨⟨hleft, hright⟩, -⟩ := hover r hr
    have hbottom : c.y + h / 2 ≤ d.height - g.marginY := by
      have hbottom := hbox.bottom.2
      norm_num only [Node.boxAt] at hbottom
      exact hbottom
    have hbegins : 0 ≤ topOf c.y h := sub_nonneg.mpr htop
    have htopOf := topOf_eq c.y h
    exact ⟨⟨by linarith, by linarith⟩, ((hink r).mp hr).mem_Icc.2 ⟨hbegins, by linarith⟩
      ⟨by linarith, by linarith⟩⟩

section Drawings

open Layered

/-- A style without roughness. -/
noncomputable def flatStyle : Style ℝ :=
  { sketchiness := 0, fontFamily := "sans-serif", fontSize := 16 }

/-- The rectangles of the triangle are in view. -/
theorem draw_outlines_triangle : UnitSource ExactTwister ∧ flatStyle.sketchiness = 0 ∧
    triangle.Joined ∧ triangle.sizeFault? = none ∧ 0 ≤ triangle.marginX ∧ 0 ≤ triangle.marginY ∧
    ∃ g' size d, Layered.layout triangle = .ok (g', size) ∧
      draw flatStyle (⟨.ofSeed 0⟩ : ExactTwister) g' = .ok d ∧
      ∀ shape ∈ d.nodes, ∀ r, Inked r shape.outline → d.Shows r := by
  have hj : triangle.Joined := by simp [Graph.Joined, Graph.ids, triangle, trio]
  have hs : triangle.sizeFault? = none := rfl
  have hx : 0 ≤ triangle.marginX := by norm_num [triangle, trio]
  have hy : 0 ≤ triangle.marginY := by norm_num [triangle, trio]
  have hflat : flatStyle.sketchiness = 0 := rfl
  refine ⟨unitSource_exactTwister, hflat, hj, hs, hx, hy, ?_⟩
  obtain ⟨g', size, d, hl, hd, -, hnodes⟩ :=
    draw_outlines unitSource_exactTwister ⟨.ofSeed 0⟩ hflat hj hs hx hy
  refine ⟨g', size, d, hl, hd, fun shape hshape => ?_⟩
  obtain ⟨v, hv, w, h, c, hsize, -, -, -, hlow, -⟩ := exists_of_mem_right hnodes hshape
  -- every node has the height that it was given
  have hsized : ∀ v ∈ triangle.nodes, v.size? = some (40, 20) := by
    simp [triangle, trio, Node.size?]
  have hsame : v.cleared ∈ triangle.nodes.map Node.cleared :=
    Graph.nodes_cleared triangle ▸ cleared_of_layout hl ▸ List.mem_map_of_mem hv
  obtain ⟨v₀, hv₀, hsame⟩ := List.mem_map.mp hsame
  have hsize₀ : v₀.cleared.size? = v.cleared.size? := congrArg Node.size? hsame
  obtain ⟨-, rfl⟩ := Prod.mk.inj (Option.some.inj
    ((hsized v₀ hv₀).symm.trans (hsize₀.trans hsize)))
  exact hlow (by norm_num [triangle, trio])

/-- One high node. -/
noncomputable def pillar : Graph ℝ := sized [("a", 40, 280)] []

/-- Packing puts the only node into a corner. -/
theorem pack_pillar : pack ⟨pillar.direction, pillar.nodeGap, pillar.rankGap⟩
    (Vector.ofFn fun u => sizeOrZero (pillar.nodes.get u))
    (plan ([] : List (Arc pillar.nodes.length))).rows =
      [(.node ⟨0, by decide⟩, ⟨20, 140⟩)] := by
  have hrows : (plan ([] : List (Arc pillar.nodes.length))).rows =
      [[.node ⟨0, by decide⟩]] := by
    decide +kernel
  have hextent : stopExtent pillar (.node ⟨0, by decide⟩) = ⟨40, 280⟩ :=
    stopExtent_node _ _
  have hdirection : pillar.direction = .topBottom := rfl
  rw [stopExtent] at hextent
  simp only [pack, hrows, List.map_cons, List.map_nil, hextent]
  norm_num [placeRows, placeRow, spanOf, bandOf, orient,
    Scalar.largestOrZero, Scalar.largest, Scalar.sum, Scalar.ofNat, hdirection]

/-- Its box keeps the margins. -/
theorem layout_pillar : ∃ g' size, Layered.layout pillar = .ok (g', size) ∧
    g'.nodes.map (fun v => (v.size?, v.center?)) = [(some (40, 280), some ⟨30, 150⟩)] := by
  have hplaced : placeAlong pillar [] =
      { pillar with
        nodes := [{ id := "a", label := "a", width := some 40, height := some 280, x := some 20,
                    y := some 140 }] } := by
    rw [placeAlong, pack_pillar]
    rfl
  have hl : Layered.layout pillar = .ok (frame (placeAlong pillar [])) := rfl
  rw [hplaced] at hl
  refine ⟨_, _, hl, ?_⟩
  norm_num [frame, fit, coveredX, coveredY, covered, Node.box?, Node.boxAt, Node.size?,
    Node.center?, moved, pillar, sized, Scalar.least, Scalar.largest, Scalar.min]

/-- A high node sticks out of the view box. -/
theorem pillar_overruns : pillar.Joined ∧ pillar.sizeFault? = none ∧ 0 ≤ pillar.marginX ∧
    0 ≤ pillar.marginY ∧ UnitSource ExactTwister ∧ flatStyle.sketchiness = 0 ∧
    ∃ g' size d, Layered.layout pillar = .ok (g', size) ∧
      draw flatStyle (⟨.ofSeed 0⟩ : ExactTwister) g' = .ok d ∧
      ∃ shape ∈ d.nodes, ∃ r, Inked r shape.outline ∧ ¬ d.Shows r := by
  have hj : pillar.Joined := by simp [Graph.Joined, pillar, sized]
  have hs : pillar.sizeFault? = none := rfl
  have hmargins : 0 ≤ pillar.marginX ∧ 0 ≤ pillar.marginY := by norm_num [pillar, sized]
  refine ⟨hj, hs, hmargins.1, hmargins.2, unitSource_exactTwister, rfl, ?_⟩
  obtain ⟨g', size, hl, hnodes⟩ := layout_pillar
  obtain ⟨g'', size', hl', hgeometry⟩ := layout_complete hj hs
  obtain ⟨rfl, rfl⟩ := Prod.mk.inj (Except.ok.inj (hl.symm.trans hl'))
  obtain ⟨d, hd⟩ : ∃ d, draw flatStyle (⟨.ofSeed 0⟩ : ExactTwister) g' = .ok d :=
    exists_draw_real _ hgeometry (by norm_num [flatStyle])
  refine ⟨g', size, d, hl, hd, ?_⟩
  have houtline := forall₂_outline unitSource_exactTwister rfl hd
  obtain ⟨v, hv, hplace⟩ := List.map_eq_singleton_iff.mp hnodes
  obtain ⟨hsize, hcenter⟩ := Prod.mk.inj hplace
  rw [hv] at houtline
  obtain ⟨shape, rest, ⟨w, h, c, hsize', hcenter', -, hink⟩, -, hshapes⟩ :=
    List.forall₂_cons_left_iff.mp houtline
  obtain ⟨rfl, rfl⟩ := Prod.mk.inj (Option.some.inj (hsize.symm.trans hsize'))
  obtain rfl := Option.some.inj (hcenter.symm.trans hcenter')
  refine ⟨shape, hshapes ▸ List.mem_cons_self, _, (hink _).mpr onRectangle_corner,
    fun hshown => ?_⟩
  have htop := hshown.2.1
  norm_num [topOf_eq] at htop

end Drawings

end Scrawl.Scene
