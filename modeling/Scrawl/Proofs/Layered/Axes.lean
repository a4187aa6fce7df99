import Scrawl.Proofs.Exact
import Scrawl.Layered.Pack

/-!
# Scrawl.Proofs.Layered.Axes — positions across and along the ranks

A direction gives the plane two axes: `across` within a rank and `along` from the first rank to the
last.  `acrossSpan` and `alongSpan` are what a box covers of them, and `Apart` is a distance between
two such spans.
-/

namespace Scrawl

/-- Whether the spans keep the distance. -/
def Apart (gap : ℝ) (s t : ℝ × ℝ) : Prop := s.2 + gap ≤ t.1 ∨ t.2 + gap ≤ s.1

theorem Apart.symm {gap : ℝ} {s t : ℝ × ℝ} (h : Apart gap s t) : Apart gap t s := Or.symm h

/-- Whether the boxes have an inner point in common. -/
def Overlap (b c : Box ℝ) : Prop :=
  b.left < c.right ∧ c.left < b.right ∧ b.top < c.bottom ∧ c.top < b.bottom

namespace Direction

/-- The position of a point within its rank. -/
def across (d : Direction) (p : Point ℝ) : ℝ := if d.isHorizontal then p.y else p.x

/-- How far a point has come in the direction. -/
def along (d : Direction) (p : Point ℝ) : ℝ :=
  match d with
  | topBottom => p.y
  | bottomTop => -p.y
  | leftRight => p.x
  | rightLeft => -p.x
  | other _ => -p.x

/-- What a box covers of the axis within a rank. -/
def acrossSpan (d : Direction) (b : Box ℝ) : ℝ × ℝ :=
  if d.isHorizontal then (b.top, b.bottom) else (b.left, b.right)

/-- What a box covers of the axis of the ranks. -/
def alongSpan (d : Direction) (b : Box ℝ) : ℝ × ℝ :=
  if d.isHorizontal then (b.left, b.right) else (b.top, b.bottom)

end Direction

namespace Point

/-- The point moved by a vector. -/
def shift (p v : Point ℝ) : Point ℝ := ⟨p.x + v.x, p.y + v.y⟩

end Point

/-- The box of a node is the one of its size around its centre. -/
theorem Node.box?_eq_some {α : Type} [Scalar α] {v : Node α} {b : Box α} : v.box? = some b ↔
    ∃ w h c, v.size? = some (w, h) ∧ v.center? = some c ∧ b = Node.boxAt w h c := by
  unfold Node.box?
  split
  · next w h c hs hc =>
    rw [hs, hc, Option.some.injEq]
    constructor
    · rintro rfl
      exact ⟨w, h, c, rfl, rfl, rfl⟩
    · rintro ⟨_, _, _, ⟨⟩, ⟨⟩, rfl⟩
      rfl
  · next hnot =>
    constructor
    · exact nofun
    · rintro ⟨w, h, c, hs, hc, rfl⟩
      exact absurd hc (hnot w h c hs)

namespace Layered

variable {d : Direction}

theorem direction_cases (hd : d ∈ Direction.all) :
    d = .topBottom ∨ d = .bottomTop ∨ d = .leftRight ∨ d = .rightLeft := by
  simpa [Direction.all] using hd

/-- Ranks are rows from top to bottom and from bottom to top, else columns. -/
theorem isHorizontal_cases :
    Direction.topBottom.isHorizontal = false ∧ Direction.bottomTop.isHorizontal = false ∧
      Direction.leftRight.isHorizontal = true ∧ Direction.rightLeft.isHorizontal = true := by
  decide

theorem across_shift_orient (hd : d ∈ Direction.all) (v : Point ℝ) (a b : ℝ) :
    d.across ((orient d a b).shift v) = a + d.across v := by
  rcases direction_cases hd with rfl | rfl | rfl | rfl <;>
    simp only [Direction.across, orient, Point.shift, isHorizontal_cases, if_true, if_false,
      Bool.false_eq_true]

theorem along_shift_orient (d : Direction) (v : Point ℝ) (a b : ℝ) :
    d.along ((orient d a b).shift v) = b + d.along v := by
  cases d <;> simp only [Direction.along, orient, Point.shift] <;> linarith

theorem acrossSpan_boxAt (w h : ℝ) (c : Point ℝ) :
    d.acrossSpan (Node.boxAt w h c) =
      (d.across c - (extentOf d (w, h)).across / 2,
        d.across c + (extentOf d (w, h)).across / 2) := by
  simp only [Direction.acrossSpan, Direction.across, extentOf, Node.boxAt]
  split_ifs <;> norm_num

/-- A distance along the direction is a distance of the boxes on the screen, whichever way the
direction goes. -/
theorem apart_alongSpan (hd : d ∈ Direction.all) {gap w h w' h' : ℝ} {c c' : Point ℝ}
    (hle : d.along c + (extentOf d (w, h)).along / 2 + gap ≤
      d.along c' - (extentOf d (w', h')).along / 2) :
    Apart gap (d.alongSpan (Node.boxAt w h c)) (d.alongSpan (Node.boxAt w' h' c')) := by
  rcases direction_cases hd with rfl | rfl | rfl | rfl <;>
    norm_num [Direction.along, Direction.alongSpan, isHorizontal_cases, extentOf, Node.boxAt,
      Apart] at hle ⊢
  · left; linarith
  · right; linarith
  · left; linarith
  · right; linarith

/-- Boxes that keep a distance on one of the axes do not overlap. -/
theorem not_overlap_of_apart (d : Direction) {gap : ℝ} (hgap : 0 ≤ gap) {b c : Box ℝ}
    (h : Apart gap (d.acrossSpan b) (d.acrossSpan c) ∨ Apart gap (d.alongSpan b) (d.alongSpan c)) :
    ¬ Overlap b c := by
  rintro ⟨h₁, h₂, h₃, h₄⟩
  simp only [Direction.acrossSpan, Direction.alongSpan, Apart] at h
  split_ifs at h <;> rcases h with (h | h) | (h | h) <;> simp only at h <;> linarith

end Layered

end Scrawl
