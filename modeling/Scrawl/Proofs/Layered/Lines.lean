import Scrawl.Proofs.Layered.LongestPaths
import Scrawl.Proofs.Layered.Routing

/-!
# Scrawl.Proofs.Layered.Lines — the lines of a route and the boxes they go through

A route is drawn as the lines between its consecutive points.  A line goes through a box if one of
its points is strictly inside.

* `inside_boxAt`: the inside of a box, by the axes of a direction.
* `not_crossed_of_aside`: lines that stay on one side of a box along the ranks.
* `crossed_iff_slants`: lines that begin beside a box, on the middle line of its band.
* `exists_reach`: from the border on, a line from the centre of a box stays outside.
-/

namespace Scrawl

/-- The point is strictly inside the box. -/
def Box.Inside (b : Box ℝ) (p : Point ℝ) : Prop :=
  b.left < p.x ∧ p.x < b.right ∧ b.top < p.y ∧ p.y < b.bottom

/-- The point to which the share `t` of the way from `p` to `q` leads. -/
def Point.toward (p q : Point ℝ) (t : ℝ) : Point ℝ :=
  ⟨p.x + (q.x - p.x) * t, p.y + (q.y - p.y) * t⟩

/-- The line from `p` to `q` goes through the inside of the box. -/
def Box.Crossed (b : Box ℝ) (p q : Point ℝ) : Prop :=
  ∃ t, 0 ≤ t ∧ t ≤ 1 ∧ b.Inside (p.toward q t)

/-- A line of the route goes through the inside of the box. -/
def Box.Entered (b : Box ℝ) (route : List (Point ℝ)) : Prop :=
  ∃ s ∈ Layered.consecutive route, b.Crossed s.1 s.2

/-- How thick a box is along the ranks. -/
def Direction.thickness (d : Direction) (b : Box ℝ) : ℝ := (d.alongSpan b).2 - (d.alongSpan b).1

/-- Seen from `p`, which stands beside the box: towards `q` the line comes over the nearer side of
the box before it has come half the thickness of the box along the ranks. -/
@[mk_iff]
inductive Slants (d : Direction) (b : Box ℝ) (p q : Point ℝ) : Prop
  | rising (side : d.across p ≤ (d.acrossSpan b).1)
      (early : ((d.acrossSpan b).1 - d.across p) * |d.along q - d.along p| <
        (d.across q - d.across p) * (d.thickness b / 2))
  | falling (side : (d.acrossSpan b).2 ≤ d.across p)
      (early : (d.across p - (d.acrossSpan b).2) * |d.along q - d.along p| <
        (d.across p - d.across q) * (d.thickness b / 2))

namespace Layered

variable {d : Direction}

/-! ### Consecutive points -/

section Consecutive

variable {β : Type}

@[simp] theorem consecutive_cons_cons (a b : β) (l : List β) :
    consecutive (a :: b :: l) = (a, b) :: consecutive (b :: l) := by
  simp [consecutive]

/-- The lines of a route split at any of its points. -/
theorem consecutive_append (a : β) (m : List β) : ∀ l : List β,
    consecutive (l ++ a :: m) = consecutive (l ++ [a]) ++ consecutive (a :: m)
  | [] => by simp [consecutive]
  | [b] => by simp [consecutive]
  | b :: c :: l => by
    have ih := consecutive_append a m (c :: l)
    simp only [List.cons_append, consecutive_cons_cons] at ih ⊢
    rw [ih]

theorem mem_of_mem_consecutive {l : List β} {s : β × β} (h : s ∈ consecutive l) :
    s.1 ∈ l ∧ s.2 ∈ l := by
  obtain ⟨i, hfirst, hsecond⟩ := mem_consecutive h
  exact ⟨List.mem_of_getElem? hfirst, List.mem_of_getElem? hsecond⟩

theorem mem_consecutive_reverse {l : List β} {p q : β} :
    (p, q) ∈ consecutive l.reverse ↔ (q, p) ∈ consecutive l := by
  induction l with
  | nil => simp [consecutive]
  | cons a l ih =>
    cases l with
    | nil => simp [consecutive]
    | cons b l =>
      rw [List.reverse_cons, List.reverse_cons, List.append_assoc, List.singleton_append,
        consecutive_append, List.mem_append, ← List.reverse_cons, ih, consecutive_cons_cons,
        consecutive_cons_cons]
      simp [consecutive, and_comm, or_comm]

end Consecutive

/-! ### Positions on a line -/

theorem along_toward (d : Direction) (p q : Point ℝ) (t : ℝ) :
    d.along (p.toward q t) = d.along p + (d.along q - d.along p) * t := by
  cases d <;> simp only [Direction.along, Point.toward] <;> ring

theorem across_toward (d : Direction) (p q : Point ℝ) (t : ℝ) :
    d.across (p.toward q t) = d.across p + (d.across q - d.across p) * t := by
  simp only [Direction.across, Point.toward]
  split_ifs <;> rfl

theorem toward_one (p q : Point ℝ) : p.toward q 1 = q := by
  simp [Point.toward]

/-- A way on along a line is a way along the line. -/
theorem toward_toward (p q : Point ℝ) (k m t : ℝ) :
    (p.toward q k).toward (p.toward q m) t = p.toward q (k + (m - k) * t) := by
  simp only [Point.toward, Point.mk.injEq]
  constructor <;> ring

theorem toward_reverse (p q : Point ℝ) (t : ℝ) : q.toward p t = p.toward q (1 - t) := by
  simp only [Point.toward, Point.mk.injEq]
  constructor <;> ring

theorem crossed_comm {b : Box ℝ} {p q : Point ℝ} : b.Crossed p q ↔ b.Crossed q p := by
  have hturn : ∀ {p q : Point ℝ}, b.Crossed p q → b.Crossed q p := by
    rintro p q ⟨t, h0, h1, ht⟩
    refine ⟨1 - t, by linarith, by linarith, ?_⟩
    rwa [toward_reverse, sub_sub_cancel]
  exact ⟨hturn, hturn⟩

theorem entered_reverse {b : Box ℝ} {route : List (Point ℝ)} :
    b.Entered route.reverse ↔ b.Entered route := by
  have hturn : ∀ {route : List (Point ℝ)}, b.Entered route → b.Entered route.reverse := by
    rintro route ⟨⟨p, q⟩, hs, hc⟩
    exact ⟨(q, p), mem_consecutive_reverse.mpr hs, crossed_comm.mp hc⟩
  exact ⟨fun h => List.reverse_reverse route ▸ hturn h, hturn⟩

/-! ### Inside a box -/

theorem thickness_boxAt (d : Direction) (w h : ℝ) (c : Point ℝ) :
    d.thickness (Node.boxAt w h c) = (extentOf d (w, h)).along := by
  simp only [Direction.thickness, Direction.alongSpan, extentOf, Node.boxAt]
  split_ifs <;> norm_num

theorem extentOf_pos (d : Direction) {w h : ℝ} (hw : 0 < w) (hh : 0 < h) :
    0 < (extentOf d (w, h)).across ∧ 0 < (extentOf d (w, h)).along := by
  simp only [extentOf]
  split_ifs
  · exact ⟨hh, hw⟩
  · exact ⟨hw, hh⟩

/-- A point is inside a box if it is less than half its extent away from its centre, across and
along the ranks. -/
theorem inside_boxAt (hd : d ∈ Direction.all) {w h : ℝ} {c p : Point ℝ} :
    (Node.boxAt w h c).Inside p ↔
      |d.across p - d.across c| < (extentOf d (w, h)).across / 2 ∧
        |d.along p - d.along c| < (extentOf d (w, h)).along / 2 := by
  simp only [abs_lt]
  rcases direction_cases hd with rfl | rfl | rfl | rfl <;>
    norm_num only [Box.Inside, Node.boxAt, Direction.across, Direction.along, extentOf,
      isHorizontal_cases, if_true, if_false, Bool.false_eq_true]
  all_goals
    constructor
    · rintro ⟨hleft, hright, htop, hbottom⟩
      exact ⟨⟨by linarith, by linarith⟩, by linarith, by linarith⟩
    · rintro ⟨⟨hleft, hright⟩, htop, hbottom⟩
      exact ⟨by linarith, by linarith, by linarith, by linarith⟩

/-- Both points are on the same side of the box, seen along the ranks. -/
inductive Aside (d : Direction) (w h : ℝ) (c p q : Point ℝ) : Prop
  | behind (first : (extentOf d (w, h)).along / 2 ≤ d.along p - d.along c)
      (second : (extentOf d (w, h)).along / 2 ≤ d.along q - d.along c)
  | before (first : (extentOf d (w, h)).along / 2 ≤ d.along c - d.along p)
      (second : (extentOf d (w, h)).along / 2 ≤ d.along c - d.along q)

/-- A line between points on the same side of a box does not go through it. -/
theorem not_crossed_of_aside (hd : d ∈ Direction.all) {w h : ℝ} {c p q : Point ℝ}
    (hside : Aside d w h c p q) : ¬ (Node.boxAt w h c).Crossed p q := by
  rintro ⟨t, h0, h1, hin⟩
  obtain ⟨-, hin⟩ := (inside_boxAt hd).mp hin
  rw [along_toward, abs_lt] at hin
  rcases hside with ⟨hp, hq⟩ | ⟨hp, hq⟩ <;> nlinarith

/-- The line from beside an interval of length `room`, at distance `near`, by `drift` over to it
while it goes `far` the other way, meets the interval before it has gone `half`. -/
theorem exists_meeting_iff {near room half far drift : ℝ} (hnear : 0 ≤ near) (hroom : 0 < room)
    (hhalf : 0 < half) (hfar : half ≤ far) :
    (∃ t, 0 ≤ t ∧ t ≤ 1 ∧ near < drift * t ∧ drift * t < near + room ∧ far * t < half) ↔
      near * far < drift * half := by
  have hfar' : 0 < far := hhalf.trans_le hfar
  constructor
  · rintro ⟨t, h0, -, hmeet, -, hbefore⟩
    have hdrift : 0 < drift := pos_of_mul_pos_left (hnear.trans_lt hmeet) h0
    calc near * far < drift * t * far := mul_lt_mul_of_pos_right hmeet hfar'
      _ = drift * (far * t) := by ring
      _ < drift * half := mul_lt_mul_of_pos_left hbefore hdrift
  · intro hslant
    have hdrift : 0 < drift :=
      pos_of_mul_pos_left ((mul_nonneg hnear hfar'.le).trans_lt hslant) hhalf.le
    -- any time after the near side is reached, and before the far side or the half way is
    have hsoon : near / drift < min ((near + room) / drift) (half / far) := by
      refine lt_min ?_ ?_
      · exact div_lt_div_of_pos_right (by linarith) hdrift
      · rw [div_lt_div_iff₀ hdrift hfar']
        linarith
    obtain ⟨t, ht, ht'⟩ := exists_between hsoon
    obtain ⟨hroom', hhalf'⟩ := lt_min_iff.mp ht'
    refine ⟨t, (div_nonneg hnear hdrift.le).trans ht.le, ?_, ?_, ?_, ?_⟩
    · exact hhalf'.le.trans ((div_le_one hfar').mpr hfar)
    · rw [div_lt_iff₀ hdrift] at ht
      linarith
    · rw [lt_div_iff₀ hdrift] at hroom'
      linarith
    · rw [lt_div_iff₀ hfar'] at hhalf'
      linarith

/-- **Lines that begin beside a box, on the middle line of its band,** and lead out of the band go
through the box if and only if they slant towards it. -/
theorem crossed_iff_slants (hd : d ∈ Direction.all) {w h : ℝ} {c p q : Point ℝ} (hw : 0 < w)
    (hh : 0 < h) (hlevel : d.along p = d.along c)
    (hbeside : Apart 0 (d.across p, d.across p) (d.acrossSpan (Node.boxAt w h c)))
    (hout : (extentOf d (w, h)).along / 2 ≤ |d.along q - d.along p|) :
    (Node.boxAt w h c).Crossed p q ↔ Slants d (Node.boxAt w h c) p q := by
  obtain ⟨hroom, hthick⟩ := extentOf_pos d hw hh
  simp only [slants_iff, Box.Crossed, inside_boxAt hd, acrossSpan_boxAt, thickness_boxAt,
    across_toward, along_toward, hlevel, add_sub_cancel_left, abs_mul] at hbeside hout ⊢
  set room := (extentOf d (w, h)).across
  set thick := (extentOf d (w, h)).along
  -- the side on which the line begins rules out one of the two ways to slant
  rcases hbeside with hleft | hright
  · simp only [add_zero] at hleft
    rw [or_iff_left fun hother => by linarith [hother.1], and_iff_right hleft,
      ← exists_meeting_iff (sub_nonneg.mpr hleft) hroom (half_pos hthick) hout]
    refine exists_congr fun t => and_congr_right fun h0 => and_congr_right fun _ => ?_
    rw [abs_of_nonneg h0, abs_lt, ← and_assoc]
    refine and_congr_left fun _ => ⟨fun hin => ?_, fun hin => ?_⟩
    · exact ⟨by linarith [hin.1], by linarith [hin.2]⟩
    · exact ⟨by linarith [hin.1], by linarith [hin.2]⟩
  · simp only [add_zero] at hright
    rw [or_iff_right fun hother => by linarith [hother.1], and_iff_right hright,
      ← exists_meeting_iff (sub_nonneg.mpr hright) hroom (half_pos hthick) hout]
    refine exists_congr fun t => and_congr_right fun h0 => and_congr_right fun _ => ?_
    rw [abs_of_nonneg h0, abs_lt, ← and_assoc]
    refine and_congr_left fun _ => ⟨fun hin => ?_, fun hin => ?_⟩
    · exact ⟨by linarith [hin.2], by linarith [hin.1]⟩
    · exact ⟨by linarith [hin.2], by linarith [hin.1]⟩

/-! ### Lines from the centre of a box -/

/-- **From the border on, a line from the centre of a box stays outside.**  The border is met on the
way to a point just if the point is not inside. -/
theorem exists_reach {p : Placed ℝ} (hw : 0 < p.width) (hh : 0 < p.height) {q : Point ℝ}
    (hne : q ≠ p.center) :
    ∃ k, 0 ≤ k ∧ borderPoint p q = p.center.toward q k ∧
      (∀ t, k ≤ t → ¬ (Node.boxAt p.width p.height p.center).Inside (p.center.toward q t)) ∧
      (k ≤ 1 ↔ ¬ (Node.boxAt p.width p.height p.center).Inside q) := by
  have hmove : q.x - p.center.x ≠ 0 ∨ q.y - p.center.y ≠ 0 := moves_of_ne hne
  obtain ⟨hpos, hx, hy, hreach⟩ := borderScale_reaches (half_pos hw) (half_pos hh) hmove
  set k := borderScale (p.width / 2) (p.height / 2) (q.x - p.center.x) (q.y - p.center.y)
  have hin : ∀ t, 0 ≤ t → ((Node.boxAt p.width p.height p.center).Inside (p.center.toward q t) ↔
      |q.x - p.center.x| * t < p.width / 2 ∧ |q.y - p.center.y| * t < p.height / 2) := by
    intro t ht
    rw [inside_boxAt (d := .topBottom) (by decide), across_toward, along_toward,
      add_sub_cancel_left, add_sub_cancel_left, abs_mul, abs_mul, abs_of_nonneg ht]
    rfl
  have hout : ∀ t, k ≤ t →
      ¬ (Node.boxAt p.width p.height p.center).Inside (p.center.toward q t) := by
    intro t ht hinside
    obtain ⟨hx', hy'⟩ := (hin t (hpos.trans ht)).mp hinside
    rcases hreach with hreach | hreach
    · exact absurd hx' (not_lt.mpr (hreach ▸ mul_le_mul_of_nonneg_left ht (abs_nonneg _)))
    · exact absurd hy' (not_lt.mpr (hreach ▸ mul_le_mul_of_nonneg_left ht (abs_nonneg _)))
  refine ⟨k, hpos, borderPoint_eq p hmove, hout, fun hk => toward_one p.center q ▸ hout 1 hk,
    fun hnot => ?_⟩
  by_contra hk
  have hk := not_le.mp hk
  -- short of the border by a part of the way, the point would be inside
  refine hnot (toward_one p.center q ▸ (hin 1 zero_le_one).mpr ⟨?_, ?_⟩)
  · rcases eq_or_ne (q.x - p.center.x) 0 with h0 | h0
    · rw [h0, abs_zero, zero_mul]
      exact half_pos hw
    · exact (mul_lt_mul_of_pos_left hk (abs_pos.mpr h0)).trans_le hx
  · rcases eq_or_ne (q.y - p.center.y) 0 with h0 | h0
    · rw [h0, abs_zero, zero_mul]
      exact half_pos hh
    · exact (mul_lt_mul_of_pos_left hk (abs_pos.mpr h0)).trans_le hy

end Layered

end Scrawl
