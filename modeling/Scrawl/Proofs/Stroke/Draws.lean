import Mathlib
import Scrawl.Proofs.Stroke.Faults

/-!
# Scrawl.Proofs.Stroke.Draws — how many random numbers a stroke takes

A sketch that comes to its end has taken some numbers from its source.  For the strokes of a pen
their count does not depend on where the stroke is: a segment takes eleven, a rectangle 88, and a
curve through `n` points takes `4 (n + 2)`.  What is drawn depends on these numbers alone, so that
a stroke of a longer sketch can be told from the place at which its numbers begin.

* `Takes`: a sketch that takes a fixed count of numbers; `bind` and `mapM` add the counts up.
* `takes_rectangle`, `takes_curve`: the strokes of a pen.
* `Takes.getElem?_mapM`: where the numbers of each of several strokes begin.
-/

namespace Scrawl

/-! ### The numbers of a source -/

namespace Source

variable {σ α : Type} [Source σ α]

/-- The source after a count of draws. -/
def after : ℕ → σ → σ
  | 0, s => s
  | n + 1, s => after n (draw s).2

/-- The number of a source at a place, counted from zero. -/
def nth (k : ℕ) (s : σ) : α := (draw (after k s)).1

theorem nth_succ (k : ℕ) (s : σ) : (nth (k + 1) s : α) = nth k (draw s).2 := rfl

theorem after_add (m n : ℕ) (s : σ) : after (m + n) s = after n (after m s) := by
  induction m generalizing s with
  | zero => rw [Nat.zero_add, after]
  | succ m ih => rw [Nat.succ_add, after, ih, after]

theorem nth_after (m k : ℕ) (s : σ) : (nth k (after m s) : α) = nth (m + k) s := by
  rw [nth, nth, after_add]

end Source

namespace Stroke

open Source

variable {σ α β γ : Type} [Source σ α]

/-- The next numbers of two sources are the same, as many as the count says. -/
def Agree (count : ℕ) (s t : σ) : Prop := ∀ k < count, (nth k t : α) = nth k s

/-- A sketch that comes to its end has taken as many numbers as the count says, and would end in the
same way from any source that gives it these numbers. -/
def Takes (count : ℕ) (x : Sketch σ β) : Prop :=
  ∀ ⦃s b rest⦄, x s = (.ok b, rest) → ∀ t, Agree count s t → x t = (.ok b, after count t)

namespace Takes

variable {m n : ℕ} {x : Sketch σ β} {s rest : σ} {b : β}

/-- The source that is left. -/
theorem rest_eq (hx : Takes n x) (h : x s = (.ok b, rest)) : rest = after n s :=
  (Prod.mk.inj (h.symm.trans (hx h s fun _ _ => rfl))).2

theorem congr (hx : Takes m x) (h : m = n) : Takes n x := h ▸ hx

theorem pure (b : β) : Takes 0 (pure b : Sketch σ β) := by
  intro s b' rest h t _
  cases h
  rfl

theorem throw (n : ℕ) (fault : StrokeFault) : Takes n (throw fault : Sketch σ β) := by
  intro s b rest h
  cases h

theorem bind {f : β → Sketch σ γ} (hx : Takes m x) (hf : ∀ b, Takes n (f b)) :
    Takes (m + n) (x >>= f) := by
  intro s c rest h t hagree
  obtain ⟨b, between, hb, hc⟩ := bind_ok h
  obtain rfl := hx.rest_eq hb
  rw [bind_eq (hx hb t fun k hk => hagree k (by omega)), after_add]
  refine hf b hc (after m t) fun k hk => ?_
  rw [nth_after, nth_after]
  exact hagree (m + k) (by omega)

theorem map (hx : Takes n x) (f : β → γ) : Takes n (f <$> x) := by
  rw [map_eq_pure_bind]
  exact hx.bind fun b => pure _

/-- Sketches one after the other take the sum of what each takes. -/
theorem mapM {f : β → Sketch σ γ} (count : β → ℕ) {l : List β}
    (hf : ∀ b ∈ l, Takes (count b) (f b)) : Takes (l.map count).sum (l.mapM f) := by
  induction l with
  | nil => exact pure _
  | cons b l ih =>
    rw [List.mapM_cons, List.map_cons, List.sum_cons]
    exact (hf b List.mem_cons_self).bind fun _ =>
      ((ih fun b hb => hf b (List.mem_cons_of_mem _ hb)).bind fun _ =>
        pure _).congr (Nat.add_zero _)

/-- **Each of several sketches** starts with the numbers that those before it have left. -/
theorem getElem?_mapM {f : β → Sketch σ γ} (count : β → ℕ) {l : List β}
    (hf : ∀ b ∈ l, Takes (count b) (f b)) {cs : List γ} (h : l.mapM f s = (.ok cs, rest)) {i : ℕ}
    {b : β} (hb : l[i]? = some b) : ∃ c rest', cs[i]? = some c ∧
      f b (after ((l.take i).map count).sum s) = (.ok c, rest') := by
  induction l generalizing s cs i with
  | nil => cases hb
  | cons b' l ih =>
    rw [List.mapM_cons] at h
    obtain ⟨c, between, hc, h⟩ := bind_ok h
    obtain ⟨cs', rest', hcs, h⟩ := bind_ok h
    obtain ⟨rfl, rfl⟩ : c :: cs' = cs ∧ rest' = rest := by
      cases h
      exact ⟨rfl, rfl⟩
    cases i with
    | zero =>
      obtain rfl := Option.some.inj hb
      exact ⟨c, between, rfl, hc⟩
    | succ i =>
      obtain rfl := (hf b' List.mem_cons_self).rest_eq hc
      obtain ⟨d, rest'', hd, hrun⟩ := ih (fun b hb => hf b (List.mem_cons_of_mem _ hb)) hcs hb
      refine ⟨d, rest'', hd, ?_⟩
      rw [List.take_succ_cons, List.map_cons, List.sum_cons, after_add]
      exact hrun

end Takes

open Takes

/-! ### Numbers of a sketch -/

theorem takes_draw : Takes 1 (draw : Sketch σ α) := by
  intro s a rest h t hagree
  have ha : a = nth 0 s := by
    cases h
    rfl
  rw [ha, ← hagree 0 Nat.one_pos]
  rfl

variable [Scalar α]

theorem takes_written (a : α) : Takes 0 (written a : Sketch σ α) := by
  unfold written
  split
  · exact throw 0 _
  · exact pure a

theorem takes_square (a : α) : Takes 0 (square a : Sketch σ α) := by
  unfold square
  split
  · exact throw 0 _
  · exact pure _

theorem takes_writtenPoint (p : Point α) : Takes 0 (writtenPoint p : Sketch σ (Point α)) :=
  (takes_written p.x).bind fun _ => (takes_written p.y).bind fun _ => pure _

theorem takes_writtenStep (s : Step α) : Takes 0 (writtenStep s : Sketch σ (Step α)) := by
  cases s with
  | move p => exact (takes_writtenPoint p).map _
  | line p => exact (takes_writtenPoint p).map _
  | cubic c d p =>
    exact (takes_writtenPoint c).bind fun _ => (takes_writtenPoint d).bind fun _ =>
      (takes_writtenPoint p).bind fun _ => pure _
  | close => exact pure _

theorem takes_writtenPath (path : Path α) : Takes 0 (writtenPath path : Sketch σ (Path α)) :=
  (mapM (fun _ => 0) fun s _ => takes_writtenStep s).congr (by simp)

/-! ### Strokes of a pen -/

section Pens

variable (pen : Pen α)

theorem takes_displacement (reach gain : α) :
    Takes 1 (pen.displacement reach gain : Sketch σ α) :=
  takes_draw.bind fun _ => pure _

theorem takes_jittered (reach gain base : α) :
    Takes 1 (pen.jittered reach gain base : Sketch σ α) :=
  (takes_displacement pen reach gain).bind fun _ => takes_written _

/-- A segment takes a number for where its control points are, two for how it bows, and two for each
of its four points. -/
theorem takes_segment (overlay : Bool) (p q : Point α) :
    Takes 11 (pen.segment overlay p q : Sketch σ (Path α)) := by
  have hjitter := fun reach gain base : α => takes_jittered (σ := σ) pen reach gain base
  refine Takes.congr (m := 0 + (0 + (1 + (1 + (1 + 8))))) ?_ rfl
  refine (takes_square _).bind fun _ => (takes_square _).bind fun _ => ?_
  refine takes_draw.bind fun _ => (takes_displacement pen _ _).bind fun _ =>
    (takes_displacement pen _ _).bind fun _ => ?_
  refine Takes.congr (m := 1 + (1 + (1 + (1 + (1 + (1 + (1 + (1 + 0)))))))) ?_ rfl
  refine (hjitter _ _ _).bind fun _ => (hjitter _ _ _).bind fun _ => ?_
  refine (hjitter _ _ _).bind fun _ => (hjitter _ _ _).bind fun _ => ?_
  refine (hjitter _ _ _).bind fun _ => (hjitter _ _ _).bind fun _ => ?_
  exact (hjitter _ _ _).bind fun _ => (hjitter _ _ _).bind fun _ => pure _

theorem takes_line (p q : Point α) : Takes 22 (pen.line p q : Sketch σ (Path α)) :=
  (takes_segment pen false p q).bind fun _ => ((takes_segment pen true p q).bind fun _ =>
    pure _).congr rfl

theorem takes_lines : ∀ points : List (Point α),
    Takes (22 * (points.length - 1)) (pen.lines points : Sketch σ (Path α))
  | [] | [_] => pure _
  | p :: q :: rest =>
    ((takes_line pen p q).bind fun _ => (takes_lines (q :: rest)).bind fun _ => pure _).congr
      (by simp only [List.length_cons]; omega)

/-- A closed path has a line for each of its points. -/
theorem takes_linearPath : ∀ points : List (Point α),
    Takes (22 * points.length) (pen.linearPath points true : Sketch σ (Path α))
  | [] | [_] => throw _ _
  | p :: q :: rest =>
    ((takes_lines pen (p :: q :: rest)).bind fun _ => (takes_line pen _ p).bind fun _ =>
      pure _).congr (by simp only [List.length_cons]; omega)

/-- **A rectangle takes 88 numbers**, wherever it is. -/
theorem takes_rectangle (x y width height : α) :
    Takes 88 (pen.rectangle x y width height : Sketch σ (Path α)) :=
  takes_linearPath pen (Pen.corners x y width height)

theorem takes_displaced (reach : α) (p : Point α) :
    Takes 2 (pen.displaced reach p : Sketch σ (Point α)) :=
  (takes_displacement pen _ _).bind fun _ => (takes_displacement pen _ _).bind fun _ => pure _

/-- A filled outline takes two numbers for each of its points. -/
theorem takes_outline (points : List (Point α)) :
    Takes (2 * points.length) (pen.outline points : Sketch σ (Path α)) := by
  have hdisplaced := Takes.mapM (l := points) (fun _ => 2)
    fun p _ => takes_displaced (σ := σ) pen (pen.spread / 4.0) p
  unfold Pen.outline
  refine (hdisplaced.bind fun moved => (?_ : Takes 0 _)).congr ?_
  · split
    · exact throw _ _
    · exact takes_writtenPath _
  · rw [List.map_const', List.sum_replicate_nat]
    omega

/-- A smooth path takes two numbers for each of its points, and for its ends again. -/
theorem takes_smooth (reach : α) {points : List (Point α)} (h : points ≠ []) :
    Takes (2 * (points.length + 2)) (pen.smooth reach points : Sketch σ (Path α)) := by
  have hlength : (points.take 1 ++ points ++ points.getLast?.toList).length =
      points.length + 2 := by
    obtain ⟨p, ps, rfl⟩ := List.exists_cons_of_ne_nil h
    simp [List.getLast?_cons]
  have hdisplaced := Takes.mapM (l := points.take 1 ++ points ++ points.getLast?.toList)
    (fun _ => 2) fun p _ => takes_displaced (σ := σ) pen reach p
  refine (hdisplaced.bind fun _ => takes_writtenPath _).congr ?_
  rw [List.map_const', List.sum_replicate_nat, hlength]
  omega

/-- **A curve takes four numbers for each of its points, and for its ends again.** -/
theorem takes_curve (points : List (Point α)) :
    Takes (4 * (points.length + 2)) (pen.curve points : Sketch σ (Path α)) := by
  unfold Pen.curve
  split_ifs with hshort
  · exact throw _ _
  · have hne : points ≠ [] := by
      rintro rfl
      exact hshort Nat.two_pos
    exact ((takes_smooth pen _ hne).bind fun _ => (takes_smooth pen _ hne).bind fun _ =>
      pure _).congr (by omega)

end Pens

end Stroke

end Scrawl
