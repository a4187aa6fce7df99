import Scrawl.Proofs.Layered.Margins

/-!
# Scrawl.Proofs.Layered.Frames — drawings that reach their margins

Framing moves a drawing by one vector and nothing else: the least coordinate of its box sides and
route points becomes the margin, and the greatest the margin on the other side.

* `fit_eq`: fitting by the least and the greatest of the values.
* `marks_shift`: the coordinates of a drawing move with it.
* `Bounds.frame_eq`: framing a drawing with known bounds.
* `framed_frame`: a framed drawing reaches the four margins.
-/

namespace Scrawl

/-! ### Moving a drawing -/

/-- The box moved by a vector. -/
def Box.shift (b : Box ℝ) (v : Point ℝ) : Box ℝ :=
  ⟨b.left + v.x, b.top + v.y, b.right + v.x, b.bottom + v.y⟩

/-- The node moved by a vector. -/
def Node.shift (u : Node ℝ) (v : Point ℝ) : Node ℝ :=
  { u with x := u.x.map (· + v.x), y := u.y.map (· + v.y) }

/-- The edge moved by a vector. -/
def Edge.shift (e : Edge ℝ) (v : Point ℝ) : Edge ℝ :=
  { e with points := e.points.map (·.shift v) }

/-- The graph with its nodes and routes moved by a vector. -/
def Graph.shift (g : Graph ℝ) (v : Point ℝ) : Graph ℝ :=
  { g with nodes := g.nodes.map (·.shift v), edges := g.edges.map (·.shift v) }

theorem Node.boxAt_shift (w h : ℝ) (c v : Point ℝ) :
    Node.boxAt w h (c.shift v) = (Node.boxAt w h c).shift v := by
  simp only [Node.boxAt, Point.shift, Box.shift, sub_add_eq_add_sub, add_right_comm]

theorem Node.center?_shift (u : Node ℝ) (v : Point ℝ) :
    (u.shift v).center? = u.center?.map (·.shift v) := by
  unfold Node.center?
  cases hx : u.x <;> cases hy : u.y <;> simp [Node.shift, hx, hy, Point.shift]

theorem Node.box?_shift (u : Node ℝ) (v : Point ℝ) :
    (u.shift v).box? = u.box?.map (·.shift v) := by
  have hsize : (u.shift v).size? = u.size? := rfl
  unfold Node.box?
  rw [hsize, Node.center?_shift]
  cases u.size? <;> cases u.center? <;> simp [Node.boxAt_shift]

/-! ### The coordinates of a drawing -/

namespace Graph

/-- The coordinates of the box sides and route points of a drawing. -/
def marks (sides : Box ℝ → List ℝ) (coordinate : Point ℝ → ℝ) (g : Graph ℝ) : Set ℝ :=
  {a | (∃ v ∈ g.nodes, ∃ b, v.box? = some b ∧ a ∈ sides b) ∨
    ∃ e ∈ g.edges, ∃ p ∈ e.points, a = coordinate p}

/-- The horizontal coordinates of the box sides and route points. -/
def marksX : Graph ℝ → Set ℝ := marks (fun b => [b.left, b.right]) (·.x)

/-- The vertical coordinates of the box sides and route points. -/
def marksY : Graph ℝ → Set ℝ := marks (fun b => [b.top, b.bottom]) (·.y)

/-- The coordinates of a drawing move with it. -/
theorem marks_shift {sides : Box ℝ → List ℝ} {coordinate : Point ℝ → ℝ} {v : Point ℝ} {d : ℝ}
    (hsides : ∀ b, sides (b.shift v) = (sides b).map (· + d))
    (hcoordinate : ∀ p, coordinate (p.shift v) = coordinate p + d) (g : Graph ℝ) :
    (g.shift v).marks sides coordinate = (· + d) '' g.marks sides coordinate := by
  ext a
  constructor
  · rintro (⟨_, hmem, b, hb, ha⟩ | ⟨_, hmem, _, hpoint, rfl⟩)
    · obtain ⟨u, hu, rfl⟩ := List.mem_map.mp hmem
      rw [Node.box?_shift, Option.map_eq_some_iff] at hb
      obtain ⟨b, hb, rfl⟩ := hb
      rw [hsides, List.mem_map] at ha
      obtain ⟨a, ha, rfl⟩ := ha
      exact ⟨a, Or.inl ⟨u, hu, b, hb, ha⟩, rfl⟩
    · obtain ⟨e, he, rfl⟩ := List.mem_map.mp hmem
      obtain ⟨p, hp, rfl⟩ := List.mem_map.mp hpoint
      exact ⟨coordinate p, Or.inr ⟨e, he, p, hp, rfl⟩, (hcoordinate p).symm⟩
  · rintro ⟨a, ⟨u, hu, b, hb, ha⟩ | ⟨e, he, p, hp, rfl⟩, rfl⟩
    · refine Or.inl ⟨u.shift v, List.mem_map_of_mem hu, b.shift v, ?_, ?_⟩
      · rw [Node.box?_shift, hb, Option.map_some]
      · rw [hsides]
        exact List.mem_map_of_mem ha
    · exact Or.inr ⟨e.shift v, List.mem_map_of_mem he, p.shift v, List.mem_map_of_mem hp,
        (hcoordinate p).symm⟩

theorem marksX_shift (g : Graph ℝ) (v : Point ℝ) :
    (g.shift v).marksX = (· + v.x) '' g.marksX :=
  marks_shift (fun _ => rfl) (fun _ => rfl) g

theorem marksY_shift (g : Graph ℝ) (v : Point ℝ) :
    (g.shift v).marksY = (· + v.y) '' g.marksY :=
  marks_shift (fun _ => rfl) (fun _ => rfl) g

end Graph

namespace Layered

/-- What framing looks at is what a drawing shows. -/
theorem mem_covered {sides : Box ℝ → List ℝ} {coordinate : Point ℝ → ℝ} {g : Graph ℝ} {a : ℝ} :
    a ∈ covered sides coordinate g ↔ a ∈ g.marks sides coordinate := by
  simp only [covered, Graph.marks, List.mem_append, List.mem_flatMap, List.mem_filterMap,
    List.mem_map, Set.mem_ofPred_eq]
  constructor
  · rintro (⟨b, ⟨u, hu, hb⟩, ha⟩ | ⟨p, ⟨e, he, hp⟩, rfl⟩)
    · exact Or.inl ⟨u, hu, b, hb, ha⟩
    · exact Or.inr ⟨e, he, p, hp, rfl⟩
  · rintro (⟨u, hu, b, hb, ha⟩ | ⟨e, he, p, hp, rfl⟩)
    · exact Or.inl ⟨b, ⟨u, hu, hb⟩, ha⟩
    · exact Or.inr ⟨p, ⟨e, he, hp⟩, rfl⟩

/-! ### Fitting -/

/-- Fitting takes account of the least and the greatest of the values alone. -/
theorem fit_eq (margin : ℝ) {xs : List ℝ} {low high : ℝ} (hlow : IsLeast {a | a ∈ xs} low)
    (hhigh : IsGreatest {a | a ∈ xs} high) :
    fit margin xs = (some (margin - low), high - low + 2 * margin) := by
  cases xs with
  | nil => exact absurd hlow.1 List.not_mem_nil
  | cons a rest =>
    have htwo : (2.0 : ℝ) = 2 := by norm_num
    rw [fit, htwo, (Scalar.isLeast_least a rest).unique hlow,
      (Scalar.isGreatest_largest a rest).unique hhigh]

section Fitted

variable {s : Set ℝ} {margin low high : ℝ}

theorem isLeast_fitted (h : IsLeast s low) : IsLeast ((· + (margin - low)) '' s) margin := by
  have hmono : Monotone (· + (margin - low)) := fun _ _ hle => add_le_add_left hle _
  simpa using hmono.map_isLeast h

theorem isGreatest_fitted (h : IsGreatest s high) :
    IsGreatest ((· + (margin - low)) '' s) (high - low + (margin + margin) - margin) := by
  have hmono : Monotone (· + (margin - low)) := fun _ _ hle => add_le_add_left hle _
  have heq : high - low + (margin + margin) - margin = high + (margin - low) := by ring
  exact heq ▸ hmono.map_isGreatest h

end Fitted

/-! ### Framing -/

/-- `g'` is the drawing `g` moved by one vector, such that its box sides and route points reach the
four margins of the size. -/
structure Framed (g g' : Graph ℝ) (size : ℝ × ℝ) : Prop where
  moved : ∃ v, g' = { g.shift v with width := some size.1, height := some size.2 }
  left : IsLeast g'.marksX g.marginX
  right : IsGreatest g'.marksX (size.1 - g.marginX)
  top : IsLeast g'.marksY g.marginY
  bottom : IsGreatest g'.marksY (size.2 - g.marginY)

theorem setOf_coveredX (g : Graph ℝ) : {a | a ∈ coveredX g} = g.marksX :=
  Set.ext fun _ => mem_covered

theorem setOf_coveredY (g : Graph ℝ) : {a | a ∈ coveredY g} = g.marksY :=
  Set.ext fun _ => mem_covered

/-- The box around all that a drawing shows. -/
structure Bounds (g : Graph ℝ) (b : Box ℝ) : Prop where
  left : IsLeast g.marksX b.left
  right : IsGreatest g.marksX b.right
  top : IsLeast g.marksY b.top
  bottom : IsGreatest g.marksY b.bottom

/-- The size of a frame around a box, with the margins of a graph on either side. -/
def roomOf (g : Graph ℝ) (b : Box ℝ) : ℝ × ℝ :=
  (b.right - b.left + (g.marginX + g.marginX), b.bottom - b.top + (g.marginY + g.marginY))

/-- Framing a drawing with known bounds. -/
theorem Bounds.frame_eq {g : Graph ℝ} {b : Box ℝ} (hb : Bounds g b) :
    frame g = ({ g.shift ⟨g.marginX - b.left, g.marginY - b.top⟩ with
      width := some (roomOf g b).1, height := some (roomOf g b).2 }, roomOf g b) := by
  have hfitX := fit_eq g.marginX (setOf_coveredX g ▸ hb.left) (setOf_coveredX g ▸ hb.right)
  have hfitY := fit_eq g.marginY (setOf_coveredY g ▸ hb.top) (setOf_coveredY g ▸ hb.bottom)
  simp only [frame, hfitX, hfitY, two_mul]
  rfl

/-- The frame of nothing is as large as its margins. -/
theorem frame_of_empty {g : Graph ℝ} (hnodes : g.nodes = []) (hedges : g.edges = []) :
    (frame g).2 = (2 * g.marginX, 2 * g.marginY) := by
  have htwo : (2.0 : ℝ) = 2 := by norm_num
  have hx : coveredX g = [] := by simp [coveredX, covered, hnodes, hedges]
  have hy : coveredY g = [] := by simp [coveredY, covered, hnodes, hedges]
  simp only [frame, hx, hy, fit, htwo]

/-- A drawing with a box has bounds. -/
theorem exists_bounds {g : Graph ℝ} {u : Node ℝ} {b : Box ℝ} (hu : u ∈ g.nodes)
    (hb : u.box? = some b) : ∃ c, Bounds g c := by
  have hx : b.left ∈ coveredX g := mem_covered.mpr (Or.inl ⟨u, hu, b, hb, by simp⟩)
  have hy : b.top ∈ coveredY g := mem_covered.mpr (Or.inl ⟨u, hu, b, hb, by simp⟩)
  obtain ⟨a, xs, hxs⟩ := List.exists_cons_of_ne_nil (List.ne_nil_of_mem hx)
  obtain ⟨c, ys, hys⟩ := List.exists_cons_of_ne_nil (List.ne_nil_of_mem hy)
  refine ⟨⟨Scalar.least a xs, Scalar.least c ys, Scalar.largest a xs, Scalar.largest c ys⟩,
    ?_, ?_, ?_, ?_⟩
  · rw [← setOf_coveredX, hxs]
    exact Scalar.isLeast_least a xs
  · rw [← setOf_coveredX, hxs]
    exact Scalar.isGreatest_largest a xs
  · rw [← setOf_coveredY, hys]
    exact Scalar.isLeast_least c ys
  · rw [← setOf_coveredY, hys]
    exact Scalar.isGreatest_largest c ys

theorem shift_mem_frame {g : Graph ℝ} {u : Node ℝ} (hu : u ∈ g.nodes) :
    ∃ v, u.shift v ∈ (frame g).1.nodes := by
  obtain ⟨v, w, h, hframe⟩ := frame_eq g
  rw [hframe]
  exact ⟨v, List.mem_map_of_mem hu⟩

/-- **A framed drawing reaches the four margins.** -/
theorem framed_frame {g : Graph ℝ} {u : Node ℝ} {b : Box ℝ} (hu : u ∈ g.nodes)
    (hb : u.box? = some b) : Framed g (frame g).1 (frame g).2 := by
  obtain ⟨c, hc⟩ := exists_bounds hu hb
  rw [hc.frame_eq]
  have hx := g.marksX_shift ⟨g.marginX - c.left, g.marginY - c.top⟩
  have hy := g.marksY_shift ⟨g.marginX - c.left, g.marginY - c.top⟩
  exact ⟨⟨_, rfl⟩, (hx.symm ▸ isLeast_fitted hc.left : IsLeast (g.shift _).marksX _),
    (hx.symm ▸ isGreatest_fitted hc.right : IsGreatest (g.shift _).marksX _),
    (hy.symm ▸ isLeast_fitted hc.top : IsLeast (g.shift _).marksY _),
    (hy.symm ▸ isGreatest_fitted hc.bottom : IsGreatest (g.shift _).marksY _)⟩

end Layered

end Scrawl
