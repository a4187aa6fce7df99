import Scrawl.Proofs.Layered.Frames
import Scrawl.Proofs.Layered.Onward

/-!
# Scrawl.Proofs.Layered.Spread — how far a drawing goes across and along the ranks

A direction turns the plane, so that drawings are compared across and along their ranks whatever the
direction is.  The size of the frame comes from the two extents of the drawing.

* `bounds_of_onBorder`: the border of a box goes no farther than the box.
* `frame_size`: the size of the frame of a drawing that starts from zero across and along its ranks.
-/

namespace Scrawl

namespace Direction

/-- What a box covers of the way along the direction. -/
def reach (d : Direction) (b : Box ℝ) : ℝ × ℝ :=
  match d with
  | topBottom => (b.top, b.bottom)
  | bottomTop => (-b.bottom, -b.top)
  | leftRight => (b.left, b.right)
  | rightLeft => (-b.right, -b.left)
  | other _ => (-b.right, -b.left)

/-- The positions across the ranks of the box sides and route points. -/
def marksAcross (d : Direction) : Graph ℝ → Set ℝ :=
  Graph.marks (fun b => [(d.acrossSpan b).1, (d.acrossSpan b).2]) d.across

/-- The positions along the ranks of the box sides and route points. -/
def marksAlong (d : Direction) : Graph ℝ → Set ℝ :=
  Graph.marks (fun b => [(d.reach b).1, (d.reach b).2]) d.along

/-- A size by its extents across and along the ranks. -/
def sizeOf (d : Direction) (across along : ℝ) : ℝ × ℝ :=
  if d.isHorizontal then (along, across) else (across, along)

end Direction

namespace Layered

variable {d : Direction} {g : Graph ℝ}

theorem across_orient (hd : d ∈ Direction.all) (a b : ℝ) : d.across (orient d a b) = a := by
  rcases direction_cases hd with rfl | rfl | rfl | rfl <;>
    simp only [Direction.across, orient, isHorizontal_cases, if_true, if_false, Bool.false_eq_true]

theorem along_orient (d : Direction) (a b : ℝ) : d.along (orient d a b) = b := by
  cases d <;> simp only [Direction.along, orient, neg_neg]

theorem across_midpoint (d : Direction) (p q : Point ℝ) :
    d.across (midpoint p q) = (d.across p + d.across q) / 2 := by
  simp only [Direction.across, midpoint_eq]
  split_ifs <;> rfl

theorem marks_neg {sides sides' : Box ℝ → List ℝ} {c c' : Point ℝ → ℝ} (g : Graph ℝ)
    (hsides : ∀ b a, a ∈ sides b ↔ -a ∈ sides' b) (hc : ∀ p, c p = -c' p) :
    g.marks sides c = -g.marks sides' c' := by
  ext a
  simp only [Graph.marks, Set.mem_neg, Set.mem_ofPred_eq, hsides, hc, neg_eq_iff_eq_neg]

theorem reach_boxAt (hd : d ∈ Direction.all) (w h : ℝ) (c : Point ℝ) :
    d.reach (Node.boxAt w h c) =
      (d.along c - (extentOf d (w, h)).along / 2, d.along c + (extentOf d (w, h)).along / 2) := by
  rcases direction_cases hd with rfl | rfl | rfl | rfl <;>
    simp only [Direction.reach, Direction.along, extentOf, Node.boxAt, isHorizontal_cases] <;>
    norm_num <;> constructor <;> ring

theorem reach_stopBox (hd : g.direction ∈ Direction.all) (p : Point ℝ)
    (t : Stop g.nodes.length) : g.direction.reach (stopBox g p t) =
      (g.direction.along p - (stopExtent g t).along / 2,
        g.direction.along p + (stopExtent g t).along / 2) := by
  rw [stopBox, reach_boxAt hd, extentOf_stopSize]

/-- A point on the border of a box is no farther out than the box. -/
theorem bounds_of_onBorder (hd : d ∈ Direction.all) {b : Box ℝ} {p : Point ℝ} (h : OnBorder b p) :
    ((d.acrossSpan b).1 ≤ d.across p ∧ d.across p ≤ (d.acrossSpan b).2) ∧
      (d.reach b).1 ≤ d.along p ∧ d.along p ≤ (d.reach b).2 := by
  obtain ⟨hleft, hright, htop, hbottom, -⟩ := h
  rcases direction_cases hd with rfl | rfl | rfl | rfl <;>
    simp only [Direction.acrossSpan, Direction.across, Direction.reach, Direction.along,
      isHorizontal_cases, if_true, if_false, Bool.false_eq_true, neg_le_neg_iff] <;>
    exact ⟨⟨by assumption, by assumption⟩, by assumption, by assumption⟩

/-- The ends of a range from zero on change places in the negated one. -/
theorem ends_neg {s : Set ℝ} {a : ℝ} (h : IsLeast s 0 ∧ IsGreatest s a) :
    IsLeast (-s) (-a) ∧ IsGreatest (-s) 0 := by
  have hanti : Antitone (Neg.neg : ℝ → ℝ) := fun _ _ hle => neg_le_neg hle
  have hzero := hanti.map_isLeast h.1
  rw [← Set.image_neg_eq_neg]
  rw [neg_zero] at hzero
  exact ⟨hanti.map_isGreatest h.2, hzero⟩

/-- The frame of a drawing that starts from zero across and along its ranks. -/
theorem frame_size (hd : g.direction ∈ Direction.all) {across along : ℝ}
    (hacross : IsLeast (g.direction.marksAcross g) 0 ∧
      IsGreatest (g.direction.marksAcross g) across)
    (halong : IsLeast (g.direction.marksAlong g) 0 ∧ IsGreatest (g.direction.marksAlong g) along) :
    (frame g).2 = ((g.direction.sizeOf across along).1 + 2 * g.marginX,
      (g.direction.sizeOf across along).2 + 2 * g.marginY) := by
  have hturned : ∀ p q a : ℝ, a ∈ [p, q] ↔ -a ∈ [-q, -p] := fun p q a => by simp [or_comm]
  have hsize : ∀ b : Box ℝ, Bounds g b →
      (frame g).2 = (b.right - b.left + 2 * g.marginX, b.bottom - b.top + 2 * g.marginY) :=
    fun _ hb => by rw [hb.frame_eq, roomOf, two_mul, two_mul]
  -- against the screen, the coordinates along the ranks are negative
  rcases direction_cases hd with h | h | h | h <;> rw [h] at hacross halong ⊢
  · have hroom := hsize ⟨0, 0, across, along⟩ ⟨hacross.1, hacross.2, halong.1, halong.2⟩
    rwa [sub_zero, sub_zero] at hroom
  · have hy : g.marksY = -Direction.bottomTop.marksAlong g :=
      marks_neg g (fun b a => hturned b.top b.bottom a) fun p => (neg_neg p.y).symm
    have hroom := hsize ⟨0, -along, across, 0⟩
      ⟨hacross.1, hacross.2, hy ▸ (ends_neg halong).1, hy ▸ (ends_neg halong).2⟩
    rwa [sub_zero, zero_sub, neg_neg] at hroom
  · have hroom := hsize ⟨0, 0, along, across⟩ ⟨halong.1, halong.2, hacross.1, hacross.2⟩
    rwa [sub_zero, sub_zero] at hroom
  · have hx : g.marksX = -Direction.rightLeft.marksAlong g :=
      marks_neg g (fun b a => hturned b.left b.right a) fun p => (neg_neg p.x).symm
    have hroom := hsize ⟨-along, 0, 0, across⟩
      ⟨hx ▸ (ends_neg halong).1, hx ▸ (ends_neg halong).2, hacross.1, hacross.2⟩
    rwa [sub_zero, zero_sub, neg_neg] at hroom

end Layered

end Scrawl
