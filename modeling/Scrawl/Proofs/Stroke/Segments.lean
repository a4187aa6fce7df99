import Scrawl.Proofs.Layered.Lines
import Scrawl.Proofs.Scene.Contents
import Scrawl.Random.Twister

/-!
# Scrawl.Proofs.Stroke.Segments — how far segments stray

With random numbers between zero and one a pen displaces every end of a segment by at most its
reach, and every control point by at most its reach and the sway of the middle.

* `gives_segment`: the loose cubic of a segment.
* `gives_linearPath`: a closed path has two strokes for each of its sides.
-/

namespace Scrawl.Stroke

open Layered (consecutive)

/-- The numbers of the sources are between zero and one. -/
def UnitSource (σ : Type) [Source σ ℝ] : Prop :=
  ∀ s : σ, 0 ≤ (Source.draw s).1 ∧ (Source.draw s).1 < 1

/-- The generator with its numbers read exactly. -/
structure ExactTwister where
  twister : Random.Twister

noncomputable instance : Source ExactTwister ℝ where
  draw t :=
    let (a, s) := t.twister.next
    let (b, s) := s.next
    (((a >>> 5).toNat * 67108864 + (b >>> 6).toNat : ℕ) / 9007199254740992, ⟨s⟩)

theorem unitSource_exactTwister : UnitSource ExactTwister := by
  intro t
  have hlt := Random.Twister.highBits_lt t.twister.next.1 t.twister.next.2.next.1
  refine ⟨div_nonneg (Nat.cast_nonneg _) (by norm_num), (div_lt_one (by norm_num)).mpr ?_⟩
  exact_mod_cast hlt

variable {σ : Type} [Source σ ℝ]

/-! ### Single numbers -/

section Numbers

variable (hunit : UnitSource σ)

include hunit in
theorem gives_draw : Gives (fun r : ℝ => 0 ≤ r ∧ r < 1) (draw : Sketch σ ℝ) := by
  intro s r rest h
  cases h
  exact hunit s

omit [Source σ ℝ] in
/-- Every real number can be written. -/
theorem written_eq (a : ℝ) : (written a : Sketch σ ℝ) = pure a := rfl

omit [Source σ ℝ] in
theorem square_eq (a : ℝ) : (square a : Sketch σ ℝ) = pure (a * a) := rfl

namespace Pen

variable {pen : Pen ℝ} (hrough : 0 ≤ pen.roughness)
include hunit hrough

theorem gives_displacement {reach gain bound : ℝ} (hgain : |gain| ≤ 1) (hreach : |reach| ≤ bound) :
    Gives (fun a => |a| ≤ pen.roughness * bound)
      (pen.displacement reach gain : Sketch σ ℝ) := by
  refine (gives_draw hunit).bind fun r ⟨hlow, hhigh⟩ => Gives.pure ?_
  have hshare : |2 * r - 1| ≤ 1 := abs_le.mpr ⟨by linarith, by linarith⟩
  calc |pen.roughness * gain * (r * (reach - -reach) + -reach)|
      = pen.roughness * (|gain| * (|2 * r - 1| * |reach|)) := by
        rw [show pen.roughness * gain * (r * (reach - -reach) + -reach) =
          pen.roughness * (gain * ((2 * r - 1) * reach)) by ring, abs_mul, abs_mul, abs_mul,
          abs_of_nonneg hrough]
    _ ≤ pen.roughness * (1 * (1 * bound)) := by gcongr
    _ = pen.roughness * bound := by rw [one_mul, one_mul]

theorem gives_jittered {reach gain bound : ℝ} (hgain : |gain| ≤ 1) (hreach : |reach| ≤ bound)
    (base : ℝ) : Gives (fun a => |a - base| ≤ pen.roughness * bound)
      (pen.jittered reach gain base : Sketch σ ℝ) := by
  refine (gives_displacement hunit hrough hgain hreach).bind fun a ha => ?_
  rw [written_eq]
  exact Gives.pure (by rwa [add_sub_cancel_left])

end Pen

end Numbers

/-! ### Segments -/

/-- The points are no farther from each other than the distance, on either axis. -/
def Near (distance : ℝ) (p q : Point ℝ) : Prop := |p.x - q.x| ≤ distance ∧ |p.y - q.y| ≤ distance

theorem eq_of_near {p q : Point ℝ} (h : Near 0 p q) : p = q := by
  obtain ⟨px, py⟩ := p
  obtain ⟨qx, qy⟩ := q
  obtain ⟨hx, hy⟩ := h
  rw [abs_nonpos_iff, sub_eq_zero] at hx hy
  exact Point.mk.injEq .. ▸ ⟨hx, hy⟩

/-- How long a segment is. -/
noncomputable def lengthOf (p q : Point ℝ) : ℝ :=
  √((p.x - q.x) * (p.x - q.x) + (p.y - q.y) * (p.y - q.y))

namespace Pen

theorem abs_gainOf_le (length : ℝ) : |gainOf length| ≤ 1 := by
  unfold gainOf
  split_ifs <;> rw [abs_le] <;> constructor <;> norm_num at * <;> linarith

/-- How far a pen displaces the ends of a segment of a length, at roughness one. -/
noncomputable def reach (pen : Pen ℝ) (length : ℝ) : ℝ := min pen.spread (length / 10.0)

/-- How far the middle of a segment of a length bows aside, at roughness one. -/
noncomputable def sway (pen : Pen ℝ) (length : ℝ) : ℝ := |pen.bowing| * pen.spread * length / 200.0

/-- The path is one cubic near to the segment. -/
inductive Loose (pen : Pen ℝ) (p q : Point ℝ) : Path ℝ → Prop
  | cubic {k : ℝ} {start c d finish : Point ℝ} (low : 0.2 ≤ k) (high : k < 0.4)
      (starts : Near (pen.roughness * pen.reach (lengthOf p q)) start p)
      (leaves : Near (pen.roughness * (pen.reach (lengthOf p q) + pen.sway (lengthOf p q))) c
        (p.toward q k))
      (arrives : Near (pen.roughness * (pen.reach (lengthOf p q) + pen.sway (lengthOf p q))) d
        (p.toward q (2 * k)))
      (ends : Near (pen.roughness * pen.reach (lengthOf p q)) finish q) :
      Loose pen p q [.move start, .cubic c d finish]

section Segment

variable {pen : Pen ℝ} (hspread : 0 ≤ pen.spread) (p q : Point ℝ)
include hspread

/-- The ends are displaced by a tenth of a short segment, and by the spread of the pen on a long
one. -/
theorem reach_eq : (if (p.x - q.x) * (p.x - q.x) + (p.y - q.y) * (p.y - q.y) <
    pen.spread * pen.spread * 100.0 then lengthOf p q / 10.0 else pen.spread) =
      pen.reach (lengthOf p q) := by
  have hten : (10.0 : ℝ) = 10 ∧ (100.0 : ℝ) = 100 := by norm_num
  have hlength : 0 ≤ lengthOf p q := Real.sqrt_nonneg _
  have hsquare : lengthOf p q * lengthOf p q = (p.x - q.x) * (p.x - q.x) +
      (p.y - q.y) * (p.y - q.y) :=
    Real.mul_self_sqrt (add_nonneg (mul_self_nonneg _) (mul_self_nonneg _))
  rw [← hsquare, reach, hten.1, hten.2]
  split_ifs with hshort
  · have hlt : lengthOf p q < 10 * pen.spread :=
      lt_of_mul_self_lt_mul_self₀ (by linarith) (by linarith)
    exact (min_eq_right (by linarith)).symm
  · have hle : 10 * pen.spread ≤ lengthOf p q :=
      le_of_not_gt fun hgt => hshort (by nlinarith)
    exact (min_eq_left (by linarith)).symm

theorem reach_nonneg : 0 ≤ pen.reach (lengthOf p q) :=
  le_min hspread (div_nonneg (Real.sqrt_nonneg _) (by norm_num))

theorem abs_sway_le {along : ℝ} (halong : |along| ≤ lengthOf p q) :
    |pen.bowing * pen.spread * along / 200.0| ≤ pen.sway (lengthOf p q) := by
  have htwo : (200.0 : ℝ) = 200 := by norm_num
  rw [sway, htwo, abs_div, abs_mul, abs_mul, abs_of_nonneg hspread,
    abs_of_pos (show (0 : ℝ) < 200 by norm_num)]
  gcongr

variable (hunit : UnitSource σ) (hrough : 0 ≤ pen.roughness)
include hunit hrough

/-- **One loose cubic is drawn for a segment.** -/
theorem gives_segment (overlay : Bool) :
    Gives (pen.Loose p q) (pen.segment overlay p q : Sketch σ (Path ℝ)) := by
  have hgain := abs_gainOf_le (lengthOf p q)
  have hx : |q.y - p.y| ≤ lengthOf p q := by
    rw [abs_sub_comm]
    exact Real.abs_le_sqrt (by nlinarith [mul_self_nonneg (p.x - q.x)])
  have hy : |p.x - q.x| ≤ lengthOf p q :=
    Real.abs_le_sqrt (by nlinarith [mul_self_nonneg (p.y - q.y)])
  have hreach : |if overlay then pen.reach (lengthOf p q) / 2.0 else pen.reach (lengthOf p q)| ≤
      pen.reach (lengthOf p q) := by
    have hnonneg := reach_nonneg hspread p q
    have htwo : (2.0 : ℝ) = 2 := by norm_num
    rw [htwo, abs_le]
    split_ifs <;> constructor <;> linarith
  rw [← reach_eq hspread p q] at hreach
  have hjitter := gives_jittered hunit hrough hgain hreach
  unfold Pen.segment
  simp only [square_eq, pure_bind]
  refine (gives_draw hunit).bind fun r ⟨hlow, hhigh⟩ => ?_
  refine (gives_displacement hunit hrough hgain (abs_sway_le hspread p q hx)).bind
    fun midX hmidX => ?_
  refine (gives_displacement hunit hrough hgain (abs_sway_le hspread p q hy)).bind
    fun midY hmidY => ?_
  refine (hjitter _).bind fun startX hstartX => ?_
  refine (hjitter _).bind fun startY hstartY => ?_
  refine (hjitter _).bind fun cX hcX => ?_
  refine (hjitter _).bind fun cY hcY => ?_
  refine (hjitter _).bind fun dX hdX => ?_
  refine (hjitter _).bind fun dY hdY => ?_
  refine (hjitter _).bind fun finishX hfinishX => ?_
  refine (hjitter _).bind fun finishY hfinishY => Gives.pure ?_
  -- a control point is displaced like an end, beside the middle that bows aside
  have hbent : ∀ {a base mid : ℝ}, |a - (mid + base)| ≤ pen.roughness * pen.reach (lengthOf p q) →
      |mid| ≤ pen.roughness * pen.sway (lengthOf p q) →
      |a - base| ≤ pen.roughness * (pen.reach (lengthOf p q) + pen.sway (lengthOf p q)) := by
    intro a base mid ha hmid
    rw [abs_le] at ha hmid ⊢
    rw [mul_add]
    exact ⟨by linarith, by linarith⟩
  have hdouble : ∀ a b k : ℝ, a + 2.0 * b * k = a + b * (2 * k) := fun a b k => by
    norm_num
    ring
  rw [reach_eq hspread, add_assoc] at hcX hcY hdX hdY
  rw [hdouble] at hdX hdY
  rw [reach_eq hspread] at hstartX hstartY hfinishX hfinishY
  exact .cubic (k := 0.2 + r * 0.2) (by linarith) (by linarith) ⟨hstartX, hstartY⟩
    ⟨hbent hcX hmidX, hbent hcY hmidY⟩ ⟨hbent hdX hmidX, hbent hdY hmidY⟩ ⟨hfinishX, hfinishY⟩

end Segment

end Pen

/-! ### Paths of segments -/

section Paths

variable {α : Type} {r : Point α → Point α → Path α → Prop}

/-- The path has two strokes for each of the sides, in order. -/
inductive Strokes (r : Point α → Point α → Path α → Prop) :
    List (Point α × Point α) → Path α → Prop
  | nil : Strokes r [] []
  | cons {p q : Point α} {a b path : Path α} {sides : List (Point α × Point α)} (first : r p q a)
      (second : r p q b) (rest : Strokes r sides path) :
      Strokes r ((p, q) :: sides) (a ++ b ++ path)

theorem Strokes.append {sides sides' : List (Point α × Point α)} {path path' : Path α}
    (h : Strokes r sides path) (h' : Strokes r sides' path') :
    Strokes r (sides ++ sides') (path ++ path') := by
  induction h with
  | nil => exact h'
  | cons first second _ ih =>
    rw [List.cons_append, List.append_assoc _ _ path']
    exact .cons first second ih

/-- The sides of a path that goes back to its start. -/
def closedSides : List (Point α) → List (Point α × Point α)
  | p :: q :: rest => consecutive (p :: q :: rest) ++ [((q :: rest).getLastD q, p)]
  | _ => []

theorem mem_of_mem_closedSides {points : List (Point α)} {side : Point α × Point α}
    (h : side ∈ closedSides points) : side.1 ∈ points ∧ side.2 ∈ points := by
  match points with
  | [] | [_] => cases h
  | p :: q :: rest =>
    rcases List.mem_append.mp h with h | h
    · exact Layered.mem_of_mem_consecutive h
    · rw [List.mem_singleton.mp h, List.getLastD_cons]
      exact ⟨List.mem_cons_of_mem _ List.getLastD_mem_cons, List.mem_cons_self⟩

variable {σ : Type} [Scalar α] [Source σ α] {pen : Pen α}
  (hr : ∀ overlay p q, Gives (r p q) (pen.segment overlay p q : Sketch σ (Path α)))
include hr

theorem gives_line (p q : Point α) :
    Gives (Strokes r [(p, q)]) (pen.line p q : Sketch σ (Path α)) :=
  (hr false p q).bind fun a ha => (hr true p q).bind fun b hb =>
    Gives.pure (List.append_nil (a ++ b) ▸ .cons ha hb .nil)

theorem gives_lines (points : List (Point α)) :
    Gives (Strokes r (consecutive points)) (pen.lines points : Sketch σ (Path α)) := by
  induction points with
  | nil => exact Gives.pure .nil
  | cons p points ih =>
    cases points with
    | nil => exact Gives.pure .nil
    | cons q rest =>
      rw [Layered.consecutive_cons_cons]
      exact (gives_line hr p q).bind fun _ hline => ih.bind fun _ hlines =>
        Gives.pure (hline.append hlines)

theorem gives_linearPath (points : List (Point α)) :
    Gives (Strokes r (closedSides points))
      (pen.linearPath points true : Sketch σ (Path α)) := by
  match points with
  | [] | [_] => exact fun _ _ _ h => by cases h
  | p :: q :: rest =>
    exact (gives_lines hr _).bind fun _ hlines => (gives_line hr _ _).bind fun _ hline =>
      Gives.pure (hlines.append hline)

end Paths

end Scrawl.Stroke
