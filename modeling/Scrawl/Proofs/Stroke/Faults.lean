import Mathlib.Data.List.Basic
import Scrawl.Scene.Drawing

/-!
# Scrawl.Proofs.Stroke.Faults — what stops a stroke

A stroke needs two points.  If it has them, only a number can stop it: one that cannot be written,
or whose square is out of range.  Over exact numbers there is none.

* `StopsAtNumbers`: no other fault stops the sketch; `bind`, `mapM` and the rest carry it from the
  parts of a sketch to the whole.
* `stopsAtNumbers_rectangle`, `stopsAtNumbers_curve`, `stopsAtNumbers_outline`: the strokes of a
  pen.
-/

namespace Scrawl

/-- Whether some number of the type meets the fault. -/
def NumberFault.Arises (α : Type) [Scalar α] (fault : NumberFault) : Prop :=
  ∃ a : α, Scalar.writeFault? a = some fault ∨ Scalar.squareFault? a = some fault

namespace Stroke

variable {σ α β γ : Type}

/-! ### Sketches -/

theorem bind_ok {x : Sketch σ β} {f : β → Sketch σ γ} {s : σ} {c : γ} {rest : σ}
    (h : (x >>= f) s = (.ok c, rest)) :
    ∃ b between, x s = (.ok b, between) ∧ f b between = (.ok c, rest) := by
  have hrun : (x >>= f) s = ExceptT.bindCont f (x s).1 (x s).2 := rfl
  cases hs : x s with
  | mk r between =>
    rw [hrun, hs] at h
    cases r with
    | ok b => exact ⟨b, between, rfl, h⟩
    | error e => cases h

theorem bind_eq {x : Sketch σ β} {f : β → Sketch σ γ} {s between : σ} {b : β}
    (h : x s = (.ok b, between)) : (x >>= f) s = f b between := by
  have hrun : (x >>= f) s = ExceptT.bindCont f (x s).1 (x s).2 := rfl
  rw [hrun, h]
  rfl

variable [Scalar α]

/-- The sketch is stopped by a number or not at all. -/
def StopsAtNumbers (α : Type) [Scalar α] (x : Sketch σ β) : Prop :=
  ∀ s fault rest, x s = (.error fault, rest) → ∃ n, fault = .number n ∧ n.Arises α

namespace StopsAtNumbers

theorem pure (b : β) : StopsAtNumbers α (pure b : Sketch σ β) := by
  intro s fault rest h
  cases h

theorem bind {x : Sketch σ β} {f : β → Sketch σ γ} (hx : StopsAtNumbers α x)
    (hf : ∀ b, StopsAtNumbers α (f b)) : StopsAtNumbers α (x >>= f) := by
  intro s fault rest h
  have hrun : (x >>= f) s = ExceptT.bindCont f (x s).1 (x s).2 := rfl
  cases hs : x s with
  | mk r s' =>
    rw [hrun, hs] at h
    cases r with
    | ok b => exact hf b s' fault rest h
    | error e =>
      cases h
      exact hx s _ _ hs

theorem map {x : Sketch σ β} (hx : StopsAtNumbers α x) (f : β → γ) :
    StopsAtNumbers α (f <$> x) := by
  rw [map_eq_pure_bind]
  exact hx.bind fun b => pure _

theorem mapM {f : β → Sketch σ γ} {l : List β} (hf : ∀ b ∈ l, StopsAtNumbers α (f b)) :
    StopsAtNumbers α (l.mapM f) := by
  induction l with
  | nil => exact pure _
  | cons b l ih =>
    rw [List.mapM_cons]
    exact (hf b List.mem_cons_self).bind fun _ =>
      (ih fun b hb => hf b (List.mem_cons_of_mem _ hb)).bind fun _ => pure _

end StopsAtNumbers

open StopsAtNumbers

/-! ### Numbers of a sketch -/

theorem stopsAtNumbers_draw [Source σ α] : StopsAtNumbers α (draw : Sketch σ α) := by
  intro s fault rest h
  cases h

theorem stopsAtNumbers_written (a : α) : StopsAtNumbers α (written a : Sketch σ α) := by
  unfold written
  split
  · next n hn =>
    intro s fault rest h
    cases h
    exact ⟨n, rfl, a, Or.inl hn⟩
  · exact pure a

theorem stopsAtNumbers_square (a : α) : StopsAtNumbers α (square a : Sketch σ α) := by
  unfold square
  split
  · next n hn =>
    intro s fault rest h
    cases h
    exact ⟨n, rfl, a, Or.inr hn⟩
  · exact pure _

theorem stopsAtNumbers_writtenPoint (p : Point α) :
    StopsAtNumbers α (writtenPoint p : Sketch σ (Point α)) :=
  (stopsAtNumbers_written _).bind fun _ => (stopsAtNumbers_written _).bind fun _ => pure _

theorem stopsAtNumbers_writtenStep (s : Step α) :
    StopsAtNumbers α (writtenStep s : Sketch σ (Step α)) := by
  cases s with
  | move p => exact (stopsAtNumbers_writtenPoint p).map _
  | line p => exact (stopsAtNumbers_writtenPoint p).map _
  | cubic c d p =>
    exact (stopsAtNumbers_writtenPoint c).bind fun _ =>
      (stopsAtNumbers_writtenPoint d).bind fun _ =>
        (stopsAtNumbers_writtenPoint p).bind fun _ => pure _
  | close => exact pure _

theorem stopsAtNumbers_writtenPath (path : Path α) :
    StopsAtNumbers α (writtenPath path : Sketch σ (Path α)) :=
  mapM fun s _ => stopsAtNumbers_writtenStep s

/-! ### Strokes of a pen -/

section Pens

variable [Source σ α] (pen : Pen α)

theorem stopsAtNumbers_displacement (reach gain : α) :
    StopsAtNumbers α (pen.displacement reach gain : Sketch σ α) :=
  stopsAtNumbers_draw.bind fun _ => pure _

theorem stopsAtNumbers_jittered (reach gain base : α) :
    StopsAtNumbers α (pen.jittered reach gain base : Sketch σ α) :=
  (stopsAtNumbers_displacement pen reach gain).bind fun _ => stopsAtNumbers_written _

theorem stopsAtNumbers_segment (overlay : Bool) (p q : Point α) :
    StopsAtNumbers α (pen.segment overlay p q : Sketch σ (Path α)) := by
  have hjitter := fun reach gain base : α => stopsAtNumbers_jittered (σ := σ) pen reach gain base
  refine (stopsAtNumbers_square _).bind fun _ => (stopsAtNumbers_square _).bind fun _ => ?_
  refine stopsAtNumbers_draw.bind fun _ => ?_
  refine (stopsAtNumbers_displacement pen _ _).bind fun _ =>
    (stopsAtNumbers_displacement pen _ _).bind fun _ => ?_
  -- two ends and two control points, with two coordinates each
  refine (hjitter _ _ _).bind fun _ => (hjitter _ _ _).bind fun _ => ?_
  refine (hjitter _ _ _).bind fun _ => (hjitter _ _ _).bind fun _ => ?_
  refine (hjitter _ _ _).bind fun _ => (hjitter _ _ _).bind fun _ => ?_
  exact (hjitter _ _ _).bind fun _ => (hjitter _ _ _).bind fun _ => pure _

theorem stopsAtNumbers_line (p q : Point α) :
    StopsAtNumbers α (pen.line p q : Sketch σ (Path α)) :=
  (stopsAtNumbers_segment pen false p q).bind fun _ =>
    (stopsAtNumbers_segment pen true p q).bind fun _ => pure _

theorem stopsAtNumbers_lines : ∀ points : List (Point α),
    StopsAtNumbers α (pen.lines points : Sketch σ (Path α))
  | [] | [_] => pure _
  | p :: q :: rest =>
    (stopsAtNumbers_line pen p q).bind fun _ =>
      (stopsAtNumbers_lines (q :: rest)).bind fun _ => pure _

theorem stopsAtNumbers_linearPath (p q : Point α) (rest : List (Point α)) (closed : Bool) :
    StopsAtNumbers α (pen.linearPath (p :: q :: rest) closed : Sketch σ (Path α)) := by
  refine (stopsAtNumbers_lines pen _).bind fun _ => ?_
  split_ifs
  · exact (stopsAtNumbers_line pen _ p).bind fun _ => pure _
  · exact pure _

theorem stopsAtNumbers_rectangle (x y width height : α) :
    StopsAtNumbers α (pen.rectangle x y width height : Sketch σ (Path α)) :=
  stopsAtNumbers_linearPath pen _ _ _ true

theorem stopsAtNumbers_displaced (reach : α) (p : Point α) :
    StopsAtNumbers α (pen.displaced reach p : Sketch σ (Point α)) :=
  (stopsAtNumbers_displacement pen _ _).bind fun _ =>
    (stopsAtNumbers_displacement pen _ _).bind fun _ => pure _

theorem stopsAtNumbers_outline (p : Point α) (rest : List (Point α)) :
    StopsAtNumbers α (pen.outline (p :: rest) : Sketch σ (Path α)) := by
  unfold Pen.outline
  rw [List.mapM_cons]
  simp only [bind_assoc, pure_bind]
  exact (stopsAtNumbers_displaced pen _ p).bind fun _ =>
    (mapM fun q _ => stopsAtNumbers_displaced pen _ q).bind fun _ => stopsAtNumbers_writtenPath _

theorem stopsAtNumbers_smooth (reach : α) (points : List (Point α)) :
    StopsAtNumbers α (pen.smooth reach points : Sketch σ (Path α)) :=
  (mapM fun p _ => stopsAtNumbers_displaced pen reach p).bind fun _ =>
    stopsAtNumbers_writtenPath _

theorem stopsAtNumbers_curve {points : List (Point α)} (h : 2 ≤ points.length) :
    StopsAtNumbers α (pen.curve points : Sketch σ (Path α)) := by
  unfold Pen.curve
  rw [if_neg (Nat.not_lt.mpr h)]
  exact (stopsAtNumbers_smooth pen _ points).bind fun _ =>
    (stopsAtNumbers_smooth pen _ points).bind fun _ => pure _

end Pens

end Stroke

end Scrawl
