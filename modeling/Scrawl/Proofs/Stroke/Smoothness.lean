import Scrawl.Proofs.Stroke.Straying

/-!
# Scrawl.Proofs.Stroke.Smoothness — smooth paths have no kinks

A smooth path leaves a point in the direction in which it came to it, since the control points on
both sides are as far from the point as a sixth of the way between its two neighbours.  Control
points are sums of points with weights that make one, so they move with the points under every
affine map.

* `isChain_catmullSteps`: two cubics that follow each other join smoothly.
* `catmullRom_map`: the smooth path through moved points is the moved path.
* `catmullRom_smooth`: what a smooth path through given points is.
-/

namespace Scrawl

/-- A point moved by an affine map of the plane. -/
noncomputable def Point.moved (f : ℝ × ℝ →ᵃ[ℝ] ℝ × ℝ) (p : Point ℝ) : Point ℝ :=
  ⟨(f (p.x, p.y)).1, (f (p.x, p.y)).2⟩

namespace Stroke

open Layered (midpoint midpoint_eq)

/-- A step with all its points moved. -/
def Step.map {α : Type} (f : Point α → Point α) : Step α → Step α
  | move p => .move (f p)
  | line p => .line (f p)
  | cubic c d p => .cubic (f c) (f d) (f p)
  | close => .close

/-- Two cubics in a row have no kink between them: the first one ends midway between its last
control point and the first control point of the second. -/
inductive JoinsSmoothly : Step ℝ → Step ℝ → Prop
  | cubic {c d p c' d' p' : Point ℝ} (midway : midpoint d c' = p) :
      JoinsSmoothly (.cubic c d p) (.cubic c' d' p')

/-! ### Joints -/

theorem catmullStep_eq (a b c d : Point ℝ) : catmullStep a b c d =
    .cubic ⟨b.x + (c.x - a.x) / 6, b.y + (c.y - a.y) / 6⟩
      ⟨c.x + (b.x - d.x) / 6, c.y + (b.y - d.y) / 6⟩ c := by
  norm_num only [catmullStep]

theorem joinsSmoothly_catmullStep (a b c d e : Point ℝ) :
    JoinsSmoothly (catmullStep a b c d) (catmullStep b c d e) := by
  rw [catmullStep_eq, catmullStep_eq]
  refine .cubic ?_
  rw [midpoint_eq]
  obtain ⟨x, y⟩ := c
  simp only [Point.mk.injEq]
  constructor <;> ring

/-- **The cubics of a smooth path join smoothly**, each with the next. -/
theorem isChain_catmullSteps (points : List (Point ℝ)) :
    (catmullSteps points).IsChain JoinsSmoothly := by
  fun_induction catmullSteps points with
  | case1 a b c d rest ih =>
    cases rest with
    | nil => exact List.isChain_singleton _
    | cons e rest => exact List.isChain_cons_cons.mpr ⟨joinsSmoothly_catmullStep a b c d e, ih⟩
  | case2 => exact List.isChain_nil

/-! ### Affine maps -/

section Affine

variable (f : ℝ × ℝ →ᵃ[ℝ] ℝ × ℝ)

/-- A point moved on by a sixth of the way between two others. -/
theorem moved_sixth (p q r : Point ℝ) :
    Point.moved f ⟨p.x + (q.x - r.x) / 6, p.y + (q.y - r.y) / 6⟩ =
      ⟨(p.moved f).x + ((q.moved f).x - (r.moved f).x) / 6,
        (p.moved f).y + ((q.moved f).y - (r.moved f).y) / 6⟩ := by
  have hsum : (p.x + (q.x - r.x) / 6, p.y + (q.y - r.y) / 6) =
      (6⁻¹ : ℝ) • ((q.x, q.y) -ᵥ (r.x, r.y)) +ᵥ (p.x, p.y) := by
    ext <;> simp <;> ring
  have hmoved : f ((6⁻¹ : ℝ) • ((q.x, q.y) -ᵥ (r.x, r.y)) +ᵥ (p.x, p.y)) =
      (6⁻¹ : ℝ) • (f (q.x, q.y) -ᵥ f (r.x, r.y)) +ᵥ f (p.x, p.y) := by
    rw [AffineMap.map_vadd, map_smul, AffineMap.linearMap_vsub]
  simp only [Point.moved, hsum, hmoved, Point.mk.injEq]
  constructor <;> simp <;> ring

theorem catmullStep_map (a b c d : Point ℝ) :
    catmullStep (a.moved f) (b.moved f) (c.moved f) (d.moved f) =
      (catmullStep a b c d).map (Point.moved f) := by
  simp only [catmullStep_eq, Step.map, moved_sixth]

theorem catmullSteps_map (points : List (Point ℝ)) :
    catmullSteps (points.map (Point.moved f)) =
      (catmullSteps points).map (Step.map (Point.moved f)) := by
  fun_induction catmullSteps points with
  | case1 a b c d rest ih =>
    simp only [List.map_cons, catmullSteps, catmullStep_map] at ih ⊢
    rw [ih]
  | case2 points hshort =>
    rcases points with _ | ⟨a, _ | ⟨b, _ | ⟨c, _ | ⟨d, rest⟩⟩⟩⟩
    · rfl
    · rfl
    · rfl
    · rfl
    · exact absurd rfl (hshort a b c d rest)

/-- **The smooth path through moved points is the moved path.** -/
theorem catmullRom_map (points : List (Point ℝ)) :
    catmullRom (points.map (Point.moved f)) =
      (catmullRom points).map (Step.map (Point.moved f)) := by
  match points with
  | [] | [_] => rfl
  | a :: b :: rest =>
    exact congrArg (Step.move (b.moved f) :: ·) (catmullSteps_map f (a :: b :: rest))

end Affine

/-! ### Smooth paths -/

/-- **A smooth path through all but the outer two of its points.**  It is a move to the second of
`n + 2` points and then `n - 1` cubics, which end at the third point and so on up to the last but
one, join smoothly, and move with the points under every affine map.  Points with rational
coordinates are among the points, and the path is not rounded. -/
theorem catmullRom_smooth {n : ℕ} {points : List (Point ℝ)} (h : points.length = n + 2) :
    (∃ start cubics, catmullRom points = .move start :: cubics ∧ points[1]? = some start ∧
      cubics.length = n - 1 ∧
      List.Forall₂ (fun p s => ∃ c d, s = .cubic c d p) (points.drop 2).dropLast cubics ∧
      cubics.IsChain JoinsSmoothly) ∧
      ∀ f : ℝ × ℝ →ᵃ[ℝ] ℝ × ℝ, catmullRom (points.map (Point.moved f)) =
        (catmullRom points).map (Step.map (Point.moved f)) := by
  refine ⟨?_, fun f => catmullRom_map f points⟩
  match points, h with
  | a :: b :: rest, h =>
    have hcubics : List.Forall₂ (fun p s => ∃ c d, s = .cubic c d p) rest.dropLast
        (catmullSteps (a :: b :: rest)) := by
      cases hrest : rest.getLast? with
      | none =>
        obtain rfl := List.getLast?_eq_none_iff.mp hrest
        exact .nil
      | some z =>
        have hsplit := List.dropLast_append_getLast? z hrest
        have hpoints := forall₂_catmullSteps a b z rest.dropLast
        rwa [hsplit] at hpoints
    refine ⟨b, catmullSteps (a :: b :: rest), rfl, rfl, ?_, hcubics, isChain_catmullSteps _⟩
    simp only [List.length_cons] at h
    rw [← hcubics.length_eq, List.length_dropLast]
    omega

/-- Over the top and down again, from end to end. -/
theorem catmullRom_smooth_arch :
    let points : List (Point ℝ) := [⟨0, 0⟩, ⟨0, 0⟩, ⟨3, 6⟩, ⟨6, 0⟩, ⟨6, 0⟩]
    points.length = 3 + 2 ∧
      (∃ start cubics, catmullRom points = .move start :: cubics ∧ points[1]? = some start ∧
        cubics.length = 2 ∧
        List.Forall₂ (fun p s => ∃ c d, s = .cubic c d p) [⟨3, 6⟩, ⟨6, 0⟩] cubics ∧
        cubics.IsChain JoinsSmoothly) ∧
      ∀ f : ℝ × ℝ →ᵃ[ℝ] ℝ × ℝ, catmullRom (points.map (Point.moved f)) =
        (catmullRom points).map (Step.map (Point.moved f)) :=
  ⟨rfl, catmullRom_smooth (n := 3) rfl⟩

end Stroke

end Scrawl
