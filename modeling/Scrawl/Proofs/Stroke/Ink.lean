import Scrawl.Proofs.Stroke.Segments

/-!
# Scrawl.Proofs.Stroke.Ink — the points that a path draws

A path draws the points of its lines and curves, from where each step before has left the pen.  A
pen without roughness draws the segments themselves, so that a rectangle is its four sides.

* `inked_strokes`: what strokes without displacements draw.
* `gives_rectangle`: what a rectangle draws without roughness.
-/

namespace Scrawl

open Set

/-- The point is on the line from `p` to `q`. -/
def OnLine (p q r : Point ℝ) : Prop := ∃ t ∈ Icc (0 : ℝ) 1, r = p.toward q t

theorem OnLine.mem_Icc {p q r : Point ℝ} (h : OnLine p q r) {a b : ℝ} :
    (p.x ∈ Icc a b → q.x ∈ Icc a b → r.x ∈ Icc a b) ∧
      (p.y ∈ Icc a b → q.y ∈ Icc a b → r.y ∈ Icc a b) := by
  obtain ⟨t, ⟨h0, h1⟩, rfl⟩ := h
  have hbetween : ∀ {u v : ℝ}, u ∈ Icc a b → v ∈ Icc a b → u + (v - u) * t ∈ Icc a b := by
    rintro u v ⟨hu, hu'⟩ ⟨hv, hv'⟩
    exact ⟨by nlinarith, by nlinarith⟩
  exact ⟨hbetween, hbetween⟩

theorem onLine_start (p q : Point ℝ) : OnLine p q p :=
  ⟨0, ⟨le_rfl, zero_le_one⟩, by simp [Point.toward]⟩

namespace Stroke

/-! ### Curves -/

/-- The point that a cubic curve has reached at time `t`. -/
def cubicAt (p c d q : Point ℝ) (t : ℝ) : Point ℝ :=
  ⟨(1 - t) ^ 3 * p.x + 3 * (1 - t) ^ 2 * t * c.x + 3 * (1 - t) * t ^ 2 * d.x + t ^ 3 * q.x,
    (1 - t) ^ 3 * p.y + 3 * (1 - t) ^ 2 * t * c.y + 3 * (1 - t) * t ^ 2 * d.y + t ^ 3 * q.y⟩

/-- A cubic with its control points on a line covers the line. -/
theorem exists_cubicAt_iff {p q r : Point ℝ} {k : ℝ} (hlow : 0 ≤ k) (hhigh : 2 * k ≤ 1) :
    (∃ t ∈ Icc (0 : ℝ) 1, r = cubicAt p (p.toward q k) (p.toward q (2 * k)) q t) ↔
      OnLine p q r := by
  set share : ℝ → ℝ := fun t => 3 * (1 - t) ^ 2 * t * k + 6 * (1 - t) * t ^ 2 * k + t ^ 3
  have hcubic : ∀ t, cubicAt p (p.toward q k) (p.toward q (2 * k)) q t = p.toward q (share t) := by
    intro t
    simp only [cubicAt, Point.toward, share, Point.mk.injEq]
    exact ⟨by ring, by ring⟩
  have hcontinuous : ContinuousOn share (Icc 0 1) := by fun_prop
  have hends : share 0 = 0 ∧ share 1 = 1 := by norm_num [share]
  constructor
  · rintro ⟨t, ⟨h0, h1⟩, rfl⟩
    refine ⟨share t, ⟨?_, ?_⟩, hcubic t⟩
    · have h1' : 0 ≤ 1 - t := by linarith
      simp only [share]
      positivity
    · have h1' : 0 ≤ 1 - t := by linarith
      have hk : 0 ≤ 1 - k ∧ 0 ≤ 1 - 2 * k := ⟨by linarith, by linarith⟩
      -- what is left of the whole is a sum of the other terms
      have hrest : 0 ≤ (1 - t) ^ 3 + 3 * (1 - t) ^ 2 * t * (1 - k) +
          3 * (1 - t) * t ^ 2 * (1 - 2 * k) := by
        have := hk.1
        have := hk.2
        positivity
      have hsum : share t = 1 - ((1 - t) ^ 3 + 3 * (1 - t) ^ 2 * t * (1 - k) +
          3 * (1 - t) * t ^ 2 * (1 - 2 * k)) := by
        simp only [share]
        ring
      linarith
  · rintro ⟨t, ht, rfl⟩
    have hcover := intermediate_value_Icc zero_le_one hcontinuous
    rw [hends.1, hends.2] at hcover
    obtain ⟨s, hs, hst⟩ := hcover ht
    exact ⟨s, hs, by rw [hcubic, hst]⟩

/-! ### Paths -/

/-- The path draws the point, with the pen at `pen` and the last move to `start`. -/
def InkedFrom (start pen r : Point ℝ) : Path ℝ → Prop
  | [] => False
  | .move p :: path => InkedFrom p p r path
  | .line p :: path => OnLine pen p r ∨ InkedFrom start p r path
  | .cubic c d p :: path =>
    (∃ t ∈ Icc (0 : ℝ) 1, r = cubicAt pen c d p t) ∨ InkedFrom start p r path
  | .close :: path => OnLine pen start r ∨ InkedFrom start start r path

/-- The path, which begins with a move, draws the point. -/
def Inked (r : Point ℝ) : Path ℝ → Prop
  | .move p :: path => InkedFrom p p r path
  | _ => False

/-- The path is a cubic along the segment. -/
inductive Straight (p q : Point ℝ) : Path ℝ → Prop
  | cubic {k : ℝ} (low : 0 ≤ k) (high : 2 * k ≤ 1) :
      Straight p q [.move p, .cubic (p.toward q k) (p.toward q (2 * k)) q]

/-- Without roughness a segment is drawn as it is. -/
theorem straight_of_loose {pen : Pen ℝ} (hrough : pen.roughness = 0) {p q : Point ℝ} {path : Path ℝ}
    (h : pen.Loose p q path) : Straight p q path := by
  obtain ⟨hlow, hhigh, hstart, hc, hd, hfinish⟩ := h
  rw [hrough, zero_mul] at hstart hc hd hfinish
  rw [eq_of_near hstart, eq_of_near hc, eq_of_near hd, eq_of_near hfinish]
  exact .cubic (by linarith) (by linarith)

theorem inkedFrom_strokes {sides : List (Point ℝ × Point ℝ)} {path : Path ℝ}
    (h : Strokes Straight sides path) (start pen r : Point ℝ) :
    InkedFrom start pen r path ↔ ∃ side ∈ sides, OnLine side.1 side.2 r := by
  induction h generalizing start pen with
  | nil => simp [InkedFrom]
  | @cons p q a b path sides first second _ ih =>
    obtain ⟨hj, hj'⟩ := first
    obtain ⟨hk, hk'⟩ := second
    simp only [List.cons_append, List.nil_append, InkedFrom, exists_cubicAt_iff hj hj',
      exists_cubicAt_iff hk hk', ih, List.exists_mem_cons_iff]
    exact or_self_left

/-- **Strokes without displacements draw their sides.** -/
theorem inked_strokes {sides : List (Point ℝ × Point ℝ)} {path : Path ℝ}
    (h : Strokes Straight sides path) (r : Point ℝ) :
    Inked r path ↔ ∃ side ∈ sides, OnLine side.1 side.2 r := by
  have hink := inkedFrom_strokes h r r r
  cases h with
  | nil => exact hink
  | cons first second _ =>
    cases first
    exact hink

section Rectangle

variable {σ : Type} [Source σ ℝ] (hunit : UnitSource σ) {pen : Pen ℝ} (hrough : pen.roughness = 0)
  (hspread : 0 ≤ pen.spread)
include hunit hrough hspread

/-- **Without roughness a rectangle is its four sides.** -/
theorem gives_rectangle (x y width height : ℝ) :
    Gives (fun path => ∀ r, Inked r path ↔
        ∃ side ∈ closedSides (Pen.corners x y width height), OnLine side.1 side.2 r)
      (pen.rectangle x y width height : Sketch σ (Path ℝ)) :=
  (gives_linearPath (fun overlay p q => (Pen.gives_segment hspread p q hunit hrough.ge overlay).mono
    fun _ => straight_of_loose hrough) _).mono fun _ => inked_strokes

end Rectangle

end Stroke

end Scrawl
