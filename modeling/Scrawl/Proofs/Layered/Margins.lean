import Scrawl.Proofs.Layered.Independence

/-!
# Scrawl.Proofs.Layered.Margins — drawings within their margins

Framing moves a drawing so that its boxes and routes keep the margins of the graph, and sets the
size of the graph to their extent with both margins.

* `fit_mem`: values that are fitted keep the margin.
* `layout_margins`: the boxes and routes of a layout keep the margins.
-/

namespace Scrawl.Layered

open Set

theorem fit_mem (margin : ℝ) {xs : List ℝ} {a : ℝ} (ha : a ∈ xs) :
    moved (fit margin xs).1 a ∈ Icc margin ((fit margin xs).2 - margin) := by
  cases xs with
  | nil => cases ha
  | cons b rest =>
    have htwo : (2.0 : ℝ) = 2 := by norm_num
    have hlow := Scalar.least_le b rest a ha
    have hhigh := Scalar.le_largest b rest a ha
    simp only [fit, moved, htwo, mem_Icc]
    exact ⟨by linarith, by linarith⟩

/-- The box keeps the margins of a drawing of the size. -/
structure WithinMargins (marginX marginY : ℝ) (size : ℝ × ℝ) (b : Box ℝ) : Prop where
  left : b.left ∈ Icc marginX (size.1 - marginX)
  right : b.right ∈ Icc marginX (size.1 - marginX)
  top : b.top ∈ Icc marginY (size.2 - marginY)
  bottom : b.bottom ∈ Icc marginY (size.2 - marginY)

/-- **Framed boxes and routes keep the margins.** -/
theorem frame_margins (g : Graph ℝ) :
    (∀ v ∈ (frame g).1.nodes, ∀ b, v.box? = some b →
      WithinMargins g.marginX g.marginY (frame g).2 b) ∧
    ∀ e ∈ (frame g).1.edges, ∀ p ∈ e.points,
      p.x ∈ Icc g.marginX ((frame g).2.1 - g.marginX) ∧
        p.y ∈ Icc g.marginY ((frame g).2.2 - g.marginY) := by
  obtain ⟨dx, hx⟩ := exists_moved (fit g.marginX (coveredX g)).1
  obtain ⟨dy, hy⟩ := exists_moved (fit g.marginY (coveredY g)).1
  have hnodes : (frame g).1.nodes = g.nodes.map fun v =>
      { v with x := v.x.map (· + dx), y := v.y.map (· + dy) } := by
    simp only [frame, funext hx, funext hy]
  constructor
  · intro v hv b hb
    rw [hnodes] at hv
    obtain ⟨v₀, hv₀, rfl⟩ := List.mem_map.mp hv
    obtain ⟨w, h, c, hsize, hc, rfl⟩ := Node.box?_eq_some.mp hb
    -- the box before it was moved
    obtain ⟨c₀, hc₀, rfl⟩ : ∃ c₀, v₀.center? = some c₀ ∧ c = c₀.shift ⟨dx, dy⟩ := by
      unfold Node.center? at hc ⊢
      cases hvx : v₀.x with
      | none => simp [hvx] at hc
      | some x =>
        cases hvy : v₀.y with
        | none => simp [hvy] at hc
        | some y =>
          simp only [hvx, hvy, Option.map_some, Option.some.injEq] at hc
          exact ⟨⟨x, y⟩, rfl, hc.symm⟩
    have hbox : Node.boxAt w h c₀ ∈ g.nodes.filterMap Node.box? :=
      List.mem_filterMap.mpr ⟨v₀, hv₀, Node.box?_eq_some.mpr ⟨w, h, c₀, hsize, hc₀, rfl⟩⟩
    have hfitX : ∀ a ∈ [(Node.boxAt w h c₀).left, (Node.boxAt w h c₀).right],
        a + dx ∈ Icc g.marginX ((frame g).2.1 - g.marginX) := fun a ha =>
      hx a ▸ fit_mem _ (List.mem_append_left _ (List.mem_flatMap.mpr ⟨_, hbox, ha⟩))
    have hfitY : ∀ a ∈ [(Node.boxAt w h c₀).top, (Node.boxAt w h c₀).bottom],
        a + dy ∈ Icc g.marginY ((frame g).2.2 - g.marginY) := fun a ha =>
      hy a ▸ fit_mem _ (List.mem_append_left _ (List.mem_flatMap.mpr ⟨_, hbox, ha⟩))
    have hshift : Node.boxAt w h (c₀.shift ⟨dx, dy⟩) =
        ⟨(Node.boxAt w h c₀).left + dx, (Node.boxAt w h c₀).top + dy,
          (Node.boxAt w h c₀).right + dx, (Node.boxAt w h c₀).bottom + dy⟩ := by
      simp only [Node.boxAt, Point.shift, sub_add_eq_add_sub, add_right_comm]
    rw [hshift]
    exact ⟨hfitX _ (by simp), hfitX _ (by simp), hfitY _ (by simp), hfitY _ (by simp)⟩
  · intro e he p hp
    obtain ⟨e₀, he₀, rfl⟩ := List.mem_map.mp he
    obtain ⟨p₀, hp₀, rfl⟩ := List.mem_map.mp hp
    have hmem : p₀ ∈ g.edges.flatMap (·.points) := List.mem_flatMap.mpr ⟨e₀, he₀, hp₀⟩
    exact ⟨fit_mem _ (List.mem_append_right _ (List.mem_map_of_mem hmem)),
      fit_mem _ (List.mem_append_right _ (List.mem_map_of_mem hmem))⟩

/-- **The boxes and routes of a layout keep the margins.** -/
theorem layout_margins {g g' : Graph ℝ} {size : ℝ × ℝ} (h : layout g = .ok (g', size)) :
    (∀ v ∈ g'.nodes, ∀ b, v.box? = some b → WithinMargins g.marginX g.marginY size b) ∧
      ∀ e ∈ g'.edges, ∀ p ∈ e.points, p.x ∈ Icc g.marginX (size.1 - g.marginX) ∧
        p.y ∈ Icc g.marginY (size.2 - g.marginY) := by
  obtain ⟨arcs, -, hframe⟩ := layout_eq_ok h
  have hmargins := frame_margins (placeAlong g arcs)
  rwa [hframe] at hmargins

end Scrawl.Layered
