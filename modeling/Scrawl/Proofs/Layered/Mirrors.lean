import Scrawl.Proofs.Layered.Bows
import Scrawl.Proofs.Layered.Frames

/-!
# Scrawl.Proofs.Layered.Mirrors — geometry seen in a mirror

The directions of a layout differ by reflections of the plane.  Each operation that routes an edge
commutes with a reflection, except that the two sides of a line change places: an edge that bows to
one side is seen to bow to the other.

* `directMiddle_mirror`: the middle point of an edge is that of the opposite one among its
  parallels.
* `routeThrough_mirror`: a route over given points.
* `lookup_pack_mirror`: packing in another direction.
-/

namespace Scrawl

/-- The reflections of the plane that exchange the sides of a screen. -/
inductive Mirror
  /-- Top and bottom change places. -/
  | upDown
  /-- Left and right change places. -/
  | leftRight
  /-- The axes change places. -/
  | diagonal

namespace Mirror

/-- The reflection of a point. -/
def point : Mirror → Point ℝ → Point ℝ
  | upDown, p => ⟨p.x, -p.y⟩
  | leftRight, p => ⟨-p.x, p.y⟩
  | diagonal, p => ⟨p.y, p.x⟩

/-- The size of what is reflected. -/
def size {β : Type} : Mirror → β × β → β × β
  | upDown, s => s
  | leftRight, s => s
  | diagonal, s => (s.2, s.1)

/-- The reflection of a box. -/
def box : Mirror → Box ℝ → Box ℝ
  | upDown, b => ⟨b.left, -b.bottom, b.right, -b.top⟩
  | leftRight, b => ⟨-b.right, b.top, -b.left, b.bottom⟩
  | diagonal, b => ⟨b.top, b.left, b.bottom, b.right⟩

open Layered in
/-- The reflection of a box around its centre. -/
def placed (m : Mirror) (s : Placed ℝ) : Placed ℝ :=
  ⟨m.point s.center, (m.size (s.width, s.height)).1, (m.size (s.width, s.height)).2⟩

variable (m : Mirror)

@[simp] theorem point_point (p : Point ℝ) : m.point (m.point p) = p := by
  cases m <;> simp [point]

@[simp] theorem size_size {β : Type} (s : β × β) : m.size (m.size s) = s := by
  cases m <;> rfl

@[simp] theorem box_box (b : Box ℝ) : m.box (m.box b) = b := by
  cases m <;> simp [box]

theorem box_boxAt (w h : ℝ) (c : Point ℝ) :
    Node.boxAt (m.size (w, h)).1 (m.size (w, h)).2 (m.point c) = m.box (Node.boxAt w h c) := by
  cases m <;> simp only [size, point, box, Node.boxAt, Box.mk.injEq, true_and, and_true] <;>
    norm_num <;> constructor <;> ring

end Mirror

namespace Layered

variable (m : Mirror)

/-! ### Points of a route -/

theorem midpoint_mirror (p q : Point ℝ) :
    midpoint (m.point p) (m.point q) = m.point (midpoint p q) := by
  cases m <;> simp only [midpoint_eq, Mirror.point, Point.mk.injEq, true_and, and_true] <;> ring

/-- In a mirror, what is moved aside is moved to the other side. -/
theorem aside_mirror (a b p : Point ℝ) (distance : ℝ) :
    aside (m.point a) (m.point b) distance (m.point p) = m.point (aside a b (-distance) p) := by
  have hneg : ∀ u v : ℝ, -u - -v = -(u - v) := fun u v => by ring
  have hright : ∀ u v : ℝ, Scalar.hypot u (-v) = Scalar.hypot u v := fun u v => by
    simp [Scalar.hypot]
  have hleft : ∀ u v : ℝ, Scalar.hypot (-u) v = Scalar.hypot u v := fun u v => by
    simp [Scalar.hypot]
  have hswap : ∀ u v : ℝ, Scalar.hypot v u = Scalar.hypot u v := fun u v => by
    simp [Scalar.hypot, add_comm]
  cases m with
  | upDown =>
    simp only [aside, Mirror.point, hneg, hright, Point.mk.injEq]
    constructor <;> ring
  | leftRight =>
    simp only [aside, Mirror.point, hneg, hleft, Point.mk.injEq]
    constructor <;> ring
  | diagonal =>
    simp only [aside, Mirror.point, hswap (b.x - a.x), Point.mk.injEq]
    constructor <;> ring

theorem borderScale_swap (w h dx dy : ℝ) : borderScale h w dy dx = borderScale w h dx dy := by
  unfold borderScale
  split_ifs with hy hx
  · simp [hx, hy]
  · rfl
  · rfl
  · exact min_comm _ _

theorem borderPoint_self (s : Placed ℝ) : borderPoint s s.center = s.center := by
  have hzero : (0.0 : ℝ) = 0 := by norm_num
  unfold borderPoint
  simp [hzero]

theorem borderPoint_mirror (s : Placed ℝ) (q : Point ℝ) :
    borderPoint (m.placed s) (m.point q) = m.point (borderPoint s q) := by
  by_cases hq : q = s.center
  · subst hq
    exact (borderPoint_self (m.placed s)).trans (congrArg m.point (borderPoint_self s).symm)
  · have hmove := moves_of_ne hq
    have hmove' : (m.point q).x - (m.placed s).center.x ≠ 0 ∨
        (m.point q).y - (m.placed s).center.y ≠ 0 :=
      moves_of_ne fun h => hq (by simpa [Mirror.placed] using congrArg m.point h)
    have hneg : ∀ u v : ℝ, -u - -v = -(u - v) := fun u v => by ring
    rw [borderPoint_eq s hmove, borderPoint_eq _ hmove']
    cases m with
    | upDown =>
      simp only [Mirror.placed, Mirror.point, Mirror.size, hneg, borderScale, abs_neg, neg_eq_zero,
        Point.mk.injEq, true_and]
      ring
    | leftRight =>
      simp only [Mirror.placed, Mirror.point, Mirror.size, hneg, borderScale, abs_neg, neg_eq_zero,
        Point.mk.injEq, and_true]
      ring
    | diagonal =>
      simp only [Mirror.placed, Mirror.point, Mirror.size, borderScale_swap (s.width / 2)]

/-- In a mirror, an edge among its parallels is where the opposite one is. -/
theorem directMiddle_mirror (gap : ℝ) {k n : ℕ} (hk : k < n) (s t : Placed ℝ) (inOrder : Bool) :
    directMiddle gap ⟨k, n⟩ (m.placed s) (m.placed t) inOrder =
      m.point (directMiddle gap ⟨n - 1 - k, n⟩ s t inOrder) := by
  have hopposite : bend gap k n = -bend gap (n - 1 - k) n := by
    rw [bend_eq gap k (by omega), bend_eq gap _ (by omega), Nat.cast_sub (by omega),
      Nat.cast_pred (by omega)]
    ring
  unfold directMiddle
  simp only [Mirror.placed, midpoint_mirror, aside_mirror, hopposite, neg_neg]
  split_ifs <;> rfl

theorem routeOver_mirror (s t : Placed ℝ) (p : Point ℝ) (ps : List (Point ℝ)) :
    routeOver (m.placed s) (m.placed t) (m.point p) (ps.map m.point) =
      (routeOver s t p ps).map m.point := by
  have hlast : (m.point p :: ps.map m.point).getLastD (m.point p) =
      m.point ((p :: ps).getLastD p) := by
    rw [List.getLastD_cons, List.getLastD_cons, List.getLastD_map]
  simp only [routeOver, hlast, borderPoint_mirror, List.map_cons, List.map_append, List.map_nil]

theorem routeThrough_mirror (s t : Placed ℝ) (via : List (Point ℝ)) (direct : Point ℝ) :
    routeThrough (m.placed s) (m.placed t) (via.map m.point) (m.point direct) =
      (routeThrough s t via direct).map m.point := by
  cases via with
  | nil => exact routeOver_mirror m s t direct []
  | cons p ps => exact routeOver_mirror m s t p ps

/-! ### Packing -/

section Packing

variable {n : ℕ}

theorem lookup_map_snd {β γ δ : Type} [BEq β] (f : γ → δ) (x : β) (l : List (β × γ)) :
    (l.map fun p => (p.1, f p.2)).lookup x = (l.lookup x).map f := by
  induction l with
  | nil => rfl
  | cons p l ih =>
    rw [List.map_cons, List.lookup_cons, List.lookup_cons]
    split
    · rfl
    · exact ih

theorem placeRows_mirror {s s' : Spacing ℝ} (hnode : s'.nodeGap = s.nodeGap)
    (hrank : s'.rankGap = s.rankGap)
    (hturn : ∀ a b, orient s'.direction a b = m.point (orient s.direction a b)) (widest : ℝ) :
    ∀ (rows : List (List (Extent ℝ))) (cursor : ℝ), placeRows s' widest cursor rows =
      (placeRows s widest cursor rows).map (·.map m.point)
  | [], _ => rfl
  | row :: rows, cursor => by
    simp only [placeRows, hnode, hrank, hturn, placeRows_mirror hnode hrank hturn widest rows,
      List.map_cons, List.map_map]
    rfl

/-- Packing in another direction reflects the centres. -/
theorem lookup_pack_mirror {s s' : Spacing ℝ} (hnode : s'.nodeGap = s.nodeGap)
    (hrank : s'.rankGap = s.rankGap)
    (hturn : ∀ a b, orient s'.direction a b = m.point (orient s.direction a b))
    {sizes sizes' : Vector (ℝ × ℝ) n}
    (hextent : Stop.extent s'.direction sizes' = Stop.extent s.direction sizes)
    (rows : List (List (Stop n))) (t : Stop n) :
    (pack s' sizes' rows).lookup t = ((pack s sizes rows).lookup t).map m.point := by
  rw [← lookup_map_snd]
  congr 1
  simp only [pack, hextent, hnode, placeRows_mirror m hnode hrank hturn, ← List.map_flatten,
    List.zip_map_right]
  rfl

end Packing

end Layered

end Scrawl
