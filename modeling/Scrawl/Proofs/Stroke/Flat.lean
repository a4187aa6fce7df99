import Scrawl.Proofs.Stroke.Magnitudes
import Scrawl.Proofs.Stroke.Segments

/-!
# Scrawl.Proofs.Stroke.Flat — strokes without roughness

A pen without roughness draws from its source like any other, yet little of what it draws depends
on the numbers that it gets.  Run from two sources it fails alike, and what it draws is told apart
by the signs of zeros at most, but for the control points of straight segments: these lie on the
segment, at a share that a random number says.

* `Parallel`: two runs of sketches, with `Parallel.bind` and `Parallel.mapM`.
* `parallel_segment`: the one stroke that is not drawn alike.
* `parallel_linearPath`, `parallel_outline`, `parallel_curve`: the strokes of a pen.
-/

namespace Scrawl.Stroke

open Decimal
open Layered (consecutive)

/-! ### What is left of a segment -/

section

variable {σ α : Type} [Scalar α] [Source σ α]

/-- A segment behind the squares of its sides and the random number of its share. -/
def Pen.segmentAt (pen : Pen α) (overlay : Bool) (p q : Point α) (squareX squareY r : α) :
    Sketch σ (Path α) := do
  let lengthSq := squareX + squareY
  let length := Scalar.sqrt lengthSq
  let gain := gainOf length
  let offset := if lengthSq < pen.spread * pen.spread * 100.0 then length / 10.0 else pen.spread
  let reach := if overlay then offset / 2.0 else offset
  let diverge := 0.2 + r * 0.2
  let midX ← pen.displacement (pen.bowing * pen.spread * (q.y - p.y) / 200.0) gain
  let midY ← pen.displacement (pen.bowing * pen.spread * (p.x - q.x) / 200.0) gain
  let jitter := pen.jittered reach gain
  let start : Point α := ⟨← jitter p.x, ← jitter p.y⟩
  let c : Point α :=
    ⟨← jitter (midX + p.x + (q.x - p.x) * diverge), ← jitter (midY + p.y + (q.y - p.y) * diverge)⟩
  let d : Point α :=
    ⟨← jitter (midX + p.x + 2.0 * (q.x - p.x) * diverge),
     ← jitter (midY + p.y + 2.0 * (q.y - p.y) * diverge)⟩
  let finish : Point α := ⟨← jitter q.x, ← jitter q.y⟩
  return [.move start, .cubic c d finish]

theorem Pen.segment_eq (pen : Pen α) (overlay : Bool) (p q : Point α) :
    (pen.segment overlay p q : Sketch σ (Path α)) =
      square (p.x - q.x) >>= fun squareX => square (p.y - q.y) >>= fun squareY =>
        draw >>= fun r => pen.segmentAt overlay p q squareX squareY r := rfl

end

/-! ### Two runs -/

section Runs

variable {σ τ ε β β' γ γ' : Type}

/-- Both fail alike, or both succeed with related results. -/
inductive SameOutcome (r : β → γ → Prop) : Except ε β → Except ε γ → Prop
  | ok {b : β} {c : γ} (h : r b c) : SameOutcome r (.ok b) (.ok c)
  | error (fault : ε) : SameOutcome r (.error fault) (.error fault)

theorem SameOutcome.mono {r q : β → γ → Prop} {x : Except ε β} {y : Except ε γ}
    (h : SameOutcome r x y) (hq : ∀ b c, r b c → q b c) : SameOutcome q x y := by
  cases h with
  | ok h => exact .ok (hq _ _ h)
  | error fault => exact .error fault

/-- From any two sources, which may be of two kinds, the sketches fail alike, or succeed with
related results. -/
def Parallel (r : β → γ → Prop) (x : Sketch σ β) (y : Sketch τ γ) : Prop :=
  ∀ s t, SameOutcome r (x s).1 (y t).1

namespace Parallel

variable {r : β → γ → Prop} {r' : β' → γ' → Prop} {x : Sketch σ β} {y : Sketch τ γ}

theorem pure {b : β} {c : γ} (h : r b c) :
    Parallel r (Pure.pure b : Sketch σ β) (Pure.pure c : Sketch τ γ) :=
  fun _ _ => .ok h

theorem mono {q : β → γ → Prop} (h : Parallel r x y) (hq : ∀ b c, r b c → q b c) : Parallel q x y :=
  fun s t => (h s t).mono hq

theorem bind {f : β → Sketch σ β'} {g : γ → Sketch τ γ'} (h : Parallel r x y)
    (hf : ∀ b c, r b c → Parallel r' (f b) (g c)) : Parallel r' (x >>= f) (y >>= g) := by
  intro s t
  have hrun : (x >>= f) s = ExceptT.bindCont f (x s).1 (x s).2 := rfl
  have hrun' : (y >>= g) t = ExceptT.bindCont g (y t).1 (y t).2 := rfl
  have hst := h s t
  rw [hrun, hrun']
  generalize (x s).1 = left at *
  generalize (y t).1 = right at *
  cases hst with
  | ok h => exact hf _ _ h _ _
  | error fault => exact .error fault

theorem map {f : β → β'} {g : γ → γ'} (h : Parallel r x y) (hf : ∀ b c, r b c → r' (f b) (g c)) :
    Parallel r' (f <$> x) (g <$> y) := by
  rw [map_eq_pure_bind, map_eq_pure_bind]
  exact h.bind fun b c hbc => pure (hf b c hbc)

theorem mapM {α : Type} {p : α → β → Prop} {q : α → γ → Prop} {f : α → Sketch σ β}
    {g : α → Sketch τ γ} {l : List α}
    (hf : ∀ a ∈ l, Parallel (fun b c => p a b ∧ q a c ∧ r b c) (f a) (g a)) :
    Parallel (fun bs cs => List.Forall₂ p l bs ∧ List.Forall₂ q l cs ∧ List.Forall₂ r bs cs)
      (l.mapM f) (l.mapM g) := by
  induction l with
  | nil => exact pure ⟨.nil, .nil, .nil⟩
  | cons a l ih =>
    rw [List.mapM_cons, List.mapM_cons]
    exact (hf a List.mem_cons_self).bind fun _ _ ⟨hp, hq, hr⟩ =>
      (ih fun a ha => hf a (List.mem_cons_of_mem _ ha)).bind fun _ _ ⟨hps, hqs, hrs⟩ =>
        pure ⟨.cons hp hps, .cons hq hqs, .cons hr hrs⟩

end Parallel

end Runs

/-! ### Numbers -/

section Numbers

variable {σ τ : Type}

/-- The numbers of the sources are shares. -/
def ShareSource (σ : Type) [Source σ Float] : Prop := ∀ s : σ, IsShare (Source.draw s).1

theorem shareSource_twister : ShareSource Random.Twister := isShare_draw

theorem parallel_draw [Source σ Float] [Source τ Float] :
    Parallel (fun r r' => (∃ s : σ, r = (Source.draw s).1) ∧ ∃ t : τ, r' = (Source.draw t).1)
      (draw : Sketch σ Float) (draw : Sketch τ Float) :=
  fun s t => .ok ⟨⟨s, rfl⟩, t, rfl⟩

theorem parallel_written {a b : Float} (h : doubleWriteFault? a = doubleWriteFault? b) :
    Parallel (fun c d => c = a ∧ d = b ∧ a.isFinite ∧ b.isFinite) (written a : Sketch σ Float)
      (written b : Sketch τ Float) := by
  have hfault (c : Float) : Scalar.writeFault? c = doubleWriteFault? c := rfl
  unfold written
  rw [hfault, hfault, h]
  cases hb : doubleWriteFault? b with
  | some fault => exact fun _ _ => .error _
  | none => exact Parallel.pure ⟨rfl, rfl, writeFault?_eq_none_iff.mp (h.trans hb),
      writeFault?_eq_none_iff.mp hb⟩

theorem parallel_square (a : Float) :
    Parallel Eq (square a : Sketch σ Float) (square a : Sketch τ Float) := by
  unfold square
  cases Scalar.squareFault? a with
  | some fault => exact fun _ _ => .error _
  | none => exact Parallel.pure rfl

variable [Source σ Float] [Source τ Float] (hshare : ShareSource σ) (hshare' : ShareSource τ)
  {pen : Pen Float} (hflat : IsZero pen.roughness) {reach : Float} (hreach : Tame reach)
  (gain : Float)
include hshare hshare' hflat hreach

/-- **Displacements are nothing without roughness.** -/
theorem parallel_displacement_of_finite {gain : Float} (hgain : gain.isFinite)
    (hfinite : reach.isFinite) :
    Parallel (fun a b => IsZero a ∧ IsZero b) (pen.displacement reach gain : Sketch σ Float)
      (pen.displacement reach gain : Sketch τ Float) := by
  have hzero := hflat.mul hgain
  refine parallel_draw.bind ?_
  rintro _ _ ⟨⟨s, rfl⟩, t, rfl⟩
  exact Parallel.pure ⟨hzero.mul (isFinite_swing (hshare s) hfinite hreach),
    hzero.mul (isFinite_swing (hshare' t) hfinite hreach)⟩

/-- They are no numbers if what does not depend on the source is not finite. -/
theorem parallel_displacement :
    Parallel Null (pen.displacement reach gain : Sketch σ Float)
      (pen.displacement reach gain : Sketch τ Float) := by
  by_cases hgain : gain.isFinite
  · by_cases hfinite : reach.isFinite
    · exact (parallel_displacement_of_finite hshare hshare' hflat hreach hgain hfinite).mono
        fun _ _ => Or.inl
    · have hneg : ¬ (-reach).isFinite := mt isFinite_neg_iff.mp hfinite
      have hzero := hflat.mul hgain
      exact parallel_draw.bind fun _ _ _ => Parallel.pure (Or.inr
        ⟨isNaN_zero_mul hzero (not_isFinite_add_right _ hneg),
          isNaN_zero_mul hzero (not_isFinite_add_right _ hneg)⟩)
  · have hnan := isNaN_zero_mul hflat hgain
    exact parallel_draw.bind fun _ _ _ => Parallel.pure (Or.inr
      ⟨isNaN_mul_left hnan _, isNaN_mul_left hnan _⟩)

/-- A coordinate is written as it is. -/
theorem parallel_jittered {base base' : Float}
    (h : doubleWriteFault? base = doubleWriteFault? base') :
    Parallel (fun a b => (Alike a base ∧ base.isFinite) ∧ Alike b base' ∧ base'.isFinite)
      (pen.jittered reach gain base : Sketch σ Float)
      (pen.jittered reach gain base' : Sketch τ Float) := by
  refine (parallel_displacement hshare hshare' hflat hreach gain).bind fun d d' hnull => ?_
  rcases hnull with ⟨hzero, hzero'⟩ | ⟨hnan, hnan'⟩
  · have halike := Alike.add_zero base hzero
    have halike' := Alike.add_zero base' hzero'
    have hfault := writeFault?_of_alike halike
    have hfault' := writeFault?_of_alike halike'
    refine (parallel_written (hfault.trans (h.trans hfault'.symm))).mono ?_
    rintro a b ⟨rfl, rfl, hfinite, hfinite'⟩
    rw [← writeFault?_eq_none_iff] at hfinite hfinite'
    exact ⟨⟨halike, writeFault?_eq_none_iff.mp (hfault.symm.trans hfinite)⟩, halike',
      writeFault?_eq_none_iff.mp (hfault'.symm.trans hfinite')⟩
  · have hsum := isNaN_add_right base hnan
    have hsum' := isNaN_add_right base' hnan'
    refine (parallel_written ?_).mono ?_
    · rw [doubleWriteFault?, doubleWriteFault?, if_pos hsum, if_pos hsum']
    · rintro a b ⟨-, -, hfinite, -⟩
      exact absurd hsum (isFinite_iff.mp hfinite).1

/-- A coordinate of a control point is written as it is on the straight segment. -/
theorem parallel_arm {m m' p span k k' : Float} (hm : Null m m') (hk : IsDiverge k)
    (hk' : IsDiverge k') (hspan : span.isFinite → ∀ k, IsDiverge k → (p + span * k).isFinite) :
    Parallel (fun a b => Alike a (p + span * k) ∧ Alike b (p + span * k'))
      (pen.jittered reach gain (m + p + span * k) : Sketch σ Float)
      (pen.jittered reach gain (m' + p + span * k') : Sketch τ Float) := by
  have hfault := writeFault?_arm hm hk hk' hspan
  refine (parallel_jittered hshare hshare' hflat hreach gain hfault).mono ?_
  rintro a b ⟨⟨ha, hfinite⟩, hb, -⟩
  rcases hm with ⟨hzero, hzero'⟩ | ⟨hnan, -⟩
  · exact ⟨ha.trans ((Alike.zero_add hzero p).add (Alike.refl _)),
      hb.trans ((Alike.zero_add hzero' p).add (Alike.refl _))⟩
  · exact absurd (isNaN_add_left (isNaN_add_left hnan p) _) (isFinite_iff.mp hfinite).1

end Numbers

/-! ### Straight segments -/

section Segments

/-- The points are told apart by the signs of zeros at most. -/
def AlikePoint (p q : Point Float) : Prop := Alike p.x q.x ∧ Alike p.y q.y

variable {σ τ : Type} [Source σ Float] [Source τ Float]

/-- The path is one straight cubic from `p` to `q`, with its control points at a share of the
segment and at twice the share. -/
inductive AlongAt (k : Float) (p q : Point Float) : Path Float → Prop
  | cubic {start c d finish : Point Float} (starts : AlikePoint start p)
      (leaves : AlikePoint c ⟨p.x + (q.x - p.x) * k, p.y + (q.y - p.y) * k⟩)
      (arrives : AlikePoint d ⟨p.x + 2.0 * (q.x - p.x) * k, p.y + 2.0 * (q.y - p.y) * k⟩)
      (ends : AlikePoint finish q) :
      AlongAt k p q [.move start, .cubic c d finish]

/-- The path is such a cubic for a share that is made of a random number. -/
def Along (σ : Type) [Source σ Float] (p q : Point Float) (path : Path Float) : Prop :=
  ∃ s : σ, AlongAt (0.2 + (Source.draw s).1 * 0.2) p q path

theorem tame_reach {pen : Pen Float} (hspread : Tame pen.spread) (overlay : Bool)
    (lengthSq length : Float) :
    Tame (if overlay then (if lengthSq < pen.spread * pen.spread * 100.0 then length / 10.0
        else pen.spread) / 2.0
      else if lengthSq < pen.spread * pen.spread * 100.0 then length / 10.0 else pen.spread) := by
  have hoffset : Tame (if lengthSq < pen.spread * pen.spread * 100.0 then length / 10.0
      else pen.spread) := by
    split_ifs
    · exact tame_div_large _ rfl (by norm_num [doubleValue_ten])
    · exact hspread
  cases overlay with
  | false => exact hoffset
  | true => exact hoffset.div rfl doubleValue_two.ge

theorem tame_sway (a : Float) : Tame (a / 200.0) :=
  tame_div_large a rfl (by norm_num [doubleValue_twoHundred])

variable (hshare : ShareSource σ) (hshare' : ShareSource τ) {pen : Pen Float}
  (hflat : IsZero pen.roughness) (hspread : Tame pen.spread)
include hshare hshare' hflat hspread

/-- What is left of a segment behind the random number of its share. -/
theorem parallel_afterShare (overlay : Bool) (p q : Point Float) (squareX squareY : Float)
    {r r' : Float} (hr : IsShare r) (hr' : IsShare r') :
    Parallel (fun a b => AlongAt (0.2 + r * 0.2) p q a ∧ AlongAt (0.2 + r' * 0.2) p q b)
      (pen.segmentAt overlay p q squareX squareY r : Sketch σ (Path Float))
      (pen.segmentAt overlay p q squareX squareY r' : Sketch τ (Path Float)) := by
  have hspan : ∀ {a b : Float}, (b - a).isFinite → b.isFinite := by
    intro a b h
    by_contra hb
    rw [double_sub_eq] at h
    exact not_isFinite_add_left hb _ h
  have harm : ∀ {a b : Float}, a.isFinite → (b - a).isFinite → ∀ k, IsDiverge k →
      (a + (b - a) * k).isFinite :=
    fun ha h k hk => isFinite_arm hk ha (hspan h) h
  have hfar : ∀ {a b : Float}, a.isFinite → (2.0 * (b - a)).isFinite → ∀ k, IsDiverge k →
      (a + 2.0 * (b - a) * k).isFinite := by
    intro a b ha h k hk
    have hsingle : (b - a).isFinite := by
      by_contra hsingle
      exact not_isFinite_mul_right _ hsingle h
    exact isFinite_farArm hk ha (hspan hsingle) hsingle h
  have hk := isDiverge_of_isShare hr
  have hk' := isDiverge_of_isShare hr'
  dsimp only [Pen.segmentAt]
  have hreach := tame_reach hspread overlay (squareX + squareY)
    (Scalar.sqrt (squareX + squareY))
  generalize (if overlay then (if squareX + squareY < pen.spread * pen.spread * 100.0 then
    Scalar.sqrt (squareX + squareY) / 10.0 else pen.spread) / 2.0
    else if squareX + squareY < pen.spread * pen.spread * 100.0 then
      Scalar.sqrt (squareX + squareY) / 10.0 else pen.spread) = reach at hreach ⊢
  generalize Pen.gainOf (Scalar.sqrt (squareX + squareY)) = gain
  have hjitter := fun base =>
    parallel_jittered hshare hshare' hflat hreach gain (rfl : doubleWriteFault? base = _)
  -- a point that is written is in range, and with it the control points beside it
  have hsway := fun a => parallel_displacement hshare hshare' hflat (tame_sway a) gain
  refine (hsway _).bind fun midX midX' hmidX => ?_
  refine (hsway _).bind fun midY midY' hmidY => ?_
  refine (hjitter p.x).bind fun startX startX' ⟨⟨hstartX, hpx⟩, hstartX', _⟩ => ?_
  refine (hjitter p.y).bind fun startY startY' ⟨⟨hstartY, hpy⟩, hstartY', _⟩ => ?_
  refine (parallel_arm hshare hshare' hflat hreach gain hmidX hk hk' (harm hpx)).bind
    fun cX cX' ⟨hcX, hcX'⟩ => ?_
  refine (parallel_arm hshare hshare' hflat hreach gain hmidY hk hk' (harm hpy)).bind
    fun cY cY' ⟨hcY, hcY'⟩ => ?_
  refine (parallel_arm hshare hshare' hflat hreach gain hmidX hk hk' (hfar hpx)).bind
    fun dX dX' ⟨hdX, hdX'⟩ => ?_
  refine (parallel_arm hshare hshare' hflat hreach gain hmidY hk hk' (hfar hpy)).bind
    fun dY dY' ⟨hdY, hdY'⟩ => ?_
  refine (hjitter q.x).bind fun finishX finishX' ⟨⟨hfinishX, _⟩, hfinishX', _⟩ => ?_
  refine (hjitter q.y).bind fun finishY finishY' ⟨⟨hfinishY, _⟩, hfinishY', _⟩ => ?_
  exact Parallel.pure
    ⟨.cubic ⟨hstartX, hstartY⟩ ⟨hcX, hcY⟩ ⟨hdX, hdY⟩ ⟨hfinishX, hfinishY⟩,
      .cubic ⟨hstartX', hstartY'⟩ ⟨hcX', hcY'⟩ ⟨hdX', hdY'⟩ ⟨hfinishX', hfinishY'⟩⟩

/-- **A segment is straight without roughness**, with control points at random shares. -/
theorem parallel_segment (overlay : Bool) (p q : Point Float) :
    Parallel (fun a b => Along σ p q a ∧ Along τ p q b)
      (pen.segment overlay p q : Sketch σ (Path Float))
      (pen.segment overlay p q : Sketch τ (Path Float)) := by
  rw [Pen.segment_eq, Pen.segment_eq]
  refine (parallel_square _).bind ?_
  rintro squareX _ rfl
  refine (parallel_square _).bind ?_
  rintro squareY _ rfl
  refine parallel_draw.bind ?_
  rintro _ _ ⟨⟨s, rfl⟩, t, rfl⟩
  refine (parallel_afterShare hshare hshare' hflat hspread overlay p q squareX squareY (hshare s)
    (hshare' t)).mono ?_
  exact fun a b ⟨ha, hb⟩ => ⟨⟨s, ha⟩, t, hb⟩

omit [Source τ Float] hshare' in
/-- The share of a segment is made of the next random number. -/
theorem alongAt_of_segment {overlay : Bool} {p q : Point Float} {s rest : σ} {path : Path Float}
    (h : pen.segment overlay p q s = (.ok path, rest)) :
    AlongAt (0.2 + (Source.draw s).1 * 0.2) p q path := by
  have hsquare : ∀ {a b : Float} {s rest : σ}, square a s = (.ok b, rest) → rest = s := by
    intro a b s rest h
    unfold square at h
    cases hfault : Scalar.squareFault? a with
    | some fault =>
      rw [hfault] at h
      cases h
    | none =>
      rw [hfault] at h
      cases h
      rfl
  rw [Pen.segment_eq] at h
  obtain ⟨squareX, s₁, hx, hbehindX⟩ := bind_ok h
  obtain ⟨squareY, s₂, hy, hbehindY⟩ := bind_ok hbehindX
  obtain ⟨r, s₃, hdraw, hleft⟩ := bind_ok hbehindY
  rw [hsquare hy, hsquare hx] at hdraw
  obtain rfl : (Source.draw s).1 = r := by
    cases hdraw
    rfl
  have hsame := parallel_afterShare hshare hshare hflat hspread overlay p q squareX squareY
    (hshare s) (hshare s) s₃ s₃
  rw [hleft] at hsame
  cases hsame with
  | ok h => exact h.1

/-- What both paths are: two straight strokes for each of the sides. -/
abbrev BothAlong (σ τ : Type) [Source σ Float] [Source τ Float]
    (sides : List (Point Float × Point Float)) (a b : Path Float) : Prop :=
  Strokes (Along σ) sides a ∧ Strokes (Along τ) sides b

theorem parallel_line (p q : Point Float) :
    Parallel (BothAlong σ τ [(p, q)]) (pen.line p q : Sketch σ (Path Float))
      (pen.line p q : Sketch τ (Path Float)) := by
  have hsegment := fun overlay => parallel_segment hshare hshare' hflat hspread overlay p q
  refine (hsegment false).bind fun a a' ⟨ha, ha'⟩ => (hsegment true).bind fun b b' ⟨hb, hb'⟩ =>
    Parallel.pure ⟨?_, ?_⟩
  · exact List.append_nil (a ++ b) ▸ .cons ha hb .nil
  · exact List.append_nil (a' ++ b') ▸ .cons ha' hb' .nil

theorem parallel_lines (points : List (Point Float)) :
    Parallel (BothAlong σ τ (consecutive points)) (pen.lines points : Sketch σ (Path Float))
      (pen.lines points : Sketch τ (Path Float)) := by
  induction points with
  | nil => exact Parallel.pure ⟨.nil, .nil⟩
  | cons p points ih =>
    cases points with
    | nil => exact Parallel.pure ⟨.nil, .nil⟩
    | cons q rest =>
      rw [Layered.consecutive_cons_cons]
      exact (parallel_line hshare hshare' hflat hspread p q).bind fun _ _ ⟨hline, hline'⟩ =>
        ih.bind fun _ _ ⟨hlines, hlines'⟩ =>
          Parallel.pure ⟨hline.append hlines, hline'.append hlines'⟩

/-- **A closed path is made of straight strokes without roughness.** -/
theorem parallel_linearPath (points : List (Point Float)) :
    Parallel (BothAlong σ τ (closedSides points))
      (pen.linearPath points true : Sketch σ (Path Float))
      (pen.linearPath points true : Sketch τ (Path Float)) := by
  match points with
  | [] | [_] => exact fun _ _ => .error _
  | p :: q :: rest =>
    exact (parallel_lines hshare hshare' hflat hspread _).bind fun _ _ ⟨hlines, hlines'⟩ =>
      (parallel_line hshare hshare' hflat hspread _ _).bind fun _ _ ⟨hline, hline'⟩ =>
        Parallel.pure ⟨hlines.append hline, hlines'.append hline'⟩

end Segments

/-! ### Outlines and curves -/

section Curves

/-- The steps are told apart by the signs of zeros at most. -/
inductive AlikeStep : Step Float → Step Float → Prop
  | move {p q : Point Float} (h : AlikePoint p q) : AlikeStep (.move p) (.move q)
  | line {p q : Point Float} (h : AlikePoint p q) : AlikeStep (.line p) (.line q)
  | cubic {c d p c' d' p' : Point Float} (hc : AlikePoint c c') (hd : AlikePoint d d')
      (hp : AlikePoint p p') : AlikeStep (.cubic c d p) (.cubic c' d' p')
  | close : AlikeStep .close .close

/-- The paths are told apart by the signs of zeros at most. -/
abbrev AlikePath : Path Float → Path Float → Prop := List.Forall₂ AlikeStep

/-- The step with a straight line in the place of a curve. -/
def Step.straightened {α : Type} : Step α → Step α
  | .cubic _ _ p => .line p
  | s => s

/-- The sides as lines, each of them twice. -/
def straightLines {α : Type} (sides : List (Point α × Point α)) : Path α :=
  sides.flatMap fun side => [.move side.1, .line side.2, .move side.1, .line side.2]

/-- Straight strokes are the sides but for their control points. -/
theorem alikePath_straightened {σ : Type} [Source σ Float]
    {sides : List (Point Float × Point Float)} {path : Path Float}
    (h : Strokes (Along σ) sides path) :
    AlikePath (path.map Step.straightened) (straightLines sides) := by
  have hstroke : ∀ {p q : Point Float} {path : Path Float}, Along σ p q path →
      AlikePath (path.map Step.straightened) [.move p, .line q] := by
    rintro p q _ ⟨_, ⟨hstart, -, -, hend⟩⟩
    exact .cons (.move hstart) (.cons (.line hend) .nil)
  induction h with
  | nil => exact .nil
  | cons first second _ ih =>
    simp only [List.map_append]
    exact List.rel_append (List.rel_append (hstroke first) (hstroke second)) ih

variable {σ τ : Type}

theorem parallel_writtenPoint {p q r : Point Float} (hp : AlikePoint p r) (hq : AlikePoint q r) :
    Parallel (fun a b => AlikePoint a r ∧ AlikePoint b r) (writtenPoint p : Sketch σ (Point Float))
      (writtenPoint q : Sketch τ (Point Float)) := by
  have hcoordinate : ∀ {a b c : Float}, Alike a c → Alike b c →
      Parallel (fun a b => Alike a c ∧ Alike b c) (written a : Sketch σ Float)
        (written b : Sketch τ Float) := by
    intro a b c ha hb
    refine (parallel_written (writeFault?_of_alike (ha.trans hb.symm))).mono ?_
    rintro _ _ ⟨rfl, rfl, -⟩
    exact ⟨ha, hb⟩
  exact (hcoordinate hp.1 hq.1).bind fun _ _ hx => (hcoordinate hp.2 hq.2).bind fun _ _ hy =>
    Parallel.pure ⟨⟨hx.1, hy.1⟩, hx.2, hy.2⟩

theorem parallel_writtenStep {s t u : Step Float} (hs : AlikeStep s u) (ht : AlikeStep t u) :
    Parallel (fun a b => AlikeStep a u ∧ AlikeStep b u) (writtenStep s : Sketch σ (Step Float))
      (writtenStep t : Sketch τ (Step Float)) := by
  cases hs with
  | move hs =>
    cases ht with
    | move ht => exact (parallel_writtenPoint hs ht).map fun _ _ h => ⟨.move h.1, .move h.2⟩
  | line hs =>
    cases ht with
    | line ht => exact (parallel_writtenPoint hs ht).map fun _ _ h => ⟨.line h.1, .line h.2⟩
  | cubic hc hd hp =>
    cases ht with
    | cubic hc' hd' hp' =>
      exact (parallel_writtenPoint hc hc').bind fun _ _ hc =>
        (parallel_writtenPoint hd hd').bind fun _ _ hd =>
          (parallel_writtenPoint hp hp').bind fun _ _ hp =>
            Parallel.pure ⟨.cubic hc.1 hd.1 hp.1, .cubic hc.2 hd.2 hp.2⟩
  | close =>
    cases ht
    exact Parallel.pure ⟨.close, .close⟩

/-- Both paths are the given one up to the signs of zeros. -/
abbrev BothAlike (path a b : Path Float) : Prop := AlikePath a path ∧ AlikePath b path

theorem parallel_writtenPath {a b path : Path Float} (ha : AlikePath a path)
    (hb : AlikePath b path) :
    Parallel (BothAlike path) (writtenPath a : Sketch σ (Path Float))
      (writtenPath b : Sketch τ (Path Float)) := by
  induction ha generalizing b with
  | nil =>
    cases hb
    exact Parallel.pure ⟨.nil, .nil⟩
  | cons hs _ ih =>
    cases hb with
    | cons ht hb =>
      have hrest := ih hb
      rw [writtenPath, writtenPath] at hrest
      rw [writtenPath, writtenPath, List.mapM_cons, List.mapM_cons]
      exact (parallel_writtenStep hs ht).bind fun _ _ h => hrest.bind fun _ _ hs =>
        Parallel.pure ⟨.cons h.1 hs.1, .cons h.2 hs.2⟩

theorem alikeStep_catmullStep {a b c d a' b' c' d' : Point Float} (ha : AlikePoint a a')
    (hb : AlikePoint b b') (hc : AlikePoint c c') (hd : AlikePoint d d') :
    AlikeStep (catmullStep a b c d) (catmullStep a' b' c' d') :=
  .cubic ⟨hb.1.add ((hc.1.sub ha.1).div _), hb.2.add ((hc.2.sub ha.2).div _)⟩
    ⟨hc.1.add ((hb.1.sub hd.1).div _), hc.2.add ((hb.2.sub hd.2).div _)⟩ hc

theorem alikePath_catmullSteps {points points' : List (Point Float)}
    (h : List.Forall₂ AlikePoint points points') :
    AlikePath (catmullSteps points) (catmullSteps points') := by
  induction h with
  | nil => exact .nil
  | cons ha h ih =>
    rcases h with _ | ⟨hb, _ | ⟨hc, _ | ⟨hd, h⟩⟩⟩
    · exact .nil
    · exact .nil
    · exact .nil
    · exact .cons (alikeStep_catmullStep ha hb hc hd) ih

theorem alikePath_catmullRom {points points' : List (Point Float)}
    (h : List.Forall₂ AlikePoint points points') :
    AlikePath (catmullRom points) (catmullRom points') := by
  cases h with
  | nil => exact .nil
  | cons ha h =>
    cases h with
    | nil => exact .nil
    | cons hb h => exact .cons (.move hb) (alikePath_catmullSteps (.cons ha (.cons hb h)))

/-- A closed outline through the points. -/
def outlinePath {α : Type} : List (Point α) → Path α
  | [] => []
  | p :: rest => .move p :: rest.map .line ++ [.close]

/-- The smooth path through the points, the first and the last one doubled. -/
def smoothPath {α : Type} [Scalar α] (points : List (Point α)) : Path α :=
  catmullRom (points.take 1 ++ points ++ points.getLast?.toList)

/-- The factor of a curve's displacements without roughness. -/
theorem one_add_zero_mul {z a : Float} (hz : IsZero z) (ha : a.isFinite) : 1.0 + z * a = 1.0 := by
  have hone : unpacked 1.0 = .finite .positive 4503599627370496 (-52) (by decide) := rfl
  rcases Alike.add_zero 1.0 (hz.mul ha) with h | ⟨-, s, hs⟩
  · exact h
  · rw [hone] at hs
    cases hs

variable [Source σ Float] [Source τ Float] (hshare : ShareSource σ) (hshare' : ShareSource τ)
  {pen : Pen Float} (hflat : IsZero pen.roughness)
include hshare hshare' hflat

theorem parallel_displaced {reach : Float} (hreach : Tame reach) (hfinite : reach.isFinite)
    (p : Point Float) :
    Parallel (fun a b => AlikePoint a p ∧ AlikePoint b p)
      (pen.displaced reach p : Sketch σ (Point Float))
      (pen.displaced reach p : Sketch τ (Point Float)) := by
  have hdisplacement := parallel_displacement_of_finite hshare hshare' hflat hreach
    (show (1.0 : Float).isFinite from rfl) hfinite
  exact hdisplacement.bind fun _ _ ⟨hx, hx'⟩ => hdisplacement.bind fun _ _ ⟨hy, hy'⟩ =>
    Parallel.pure ⟨⟨Alike.add_zero _ hx, Alike.add_zero _ hy⟩,
      Alike.add_zero _ hx', Alike.add_zero _ hy'⟩

theorem parallel_mapM_displaced {reach : Float} (hreach : Tame reach) (hfinite : reach.isFinite)
    (points : List (Point Float)) :
    Parallel (fun moved moved' => List.Forall₂ (fun p a => AlikePoint a p) points moved ∧
        List.Forall₂ (fun p a => AlikePoint a p) points moved')
      (points.mapM (pen.displaced reach) : Sketch σ (List (Point Float)))
      (points.mapM (pen.displaced reach) : Sketch τ (List (Point Float))) :=
  (Parallel.mapM (r := fun _ _ => True) fun p _ =>
    (parallel_displaced hshare hshare' hflat hreach hfinite p).mono fun _ _ h =>
      ⟨h.1, h.2, trivial⟩).mono fun _ _ h => ⟨h.1, h.2.1⟩

/-- **A filled outline goes through the given points without roughness.** -/
theorem parallel_outline (hspread : Tame (pen.spread / 4.0))
    (hfinite : (pen.spread / 4.0).isFinite) (points : List (Point Float)) :
    Parallel (BothAlike (outlinePath points)) (pen.outline points : Sketch σ (Path Float))
      (pen.outline points : Sketch τ (Path Float)) := by
  have houtline : ∀ {p : Point Float} {moved points : List (Point Float)} {a : Point Float},
      AlikePoint a p → List.Forall₂ (fun p a => AlikePoint a p) points moved →
      AlikePath (.move a :: moved.map .line ++ [.close]) (outlinePath (p :: points)) :=
    fun ha hmoved => .cons (.move ha)
      (List.rel_append (List.rel_map (fun _ _ h => .line h) hmoved.flip) (.cons .close .nil))
  refine (parallel_mapM_displaced hshare hshare' hflat hspread hfinite points).bind
    fun moved moved' ⟨hmoved, hmoved'⟩ => ?_
  cases hmoved with
  | nil =>
    cases hmoved'
    exact fun _ _ => .error _
  | cons hp hrest =>
    cases hmoved' with
    | cons hp' hrest' => exact parallel_writtenPath (houtline hp hrest) (houtline hp' hrest')

theorem parallel_smooth {reach : Float} (hreach : Tame reach) (hfinite : reach.isFinite)
    (points : List (Point Float)) :
    Parallel (BothAlike (smoothPath points)) (pen.smooth reach points : Sketch σ (Path Float))
      (pen.smooth reach points : Sketch τ (Path Float)) :=
  (parallel_mapM_displaced hshare hshare' hflat hreach hfinite _).bind
    fun _ _ ⟨hmoved, hmoved'⟩ => parallel_writtenPath (alikePath_catmullRom hmoved.flip)
      (alikePath_catmullRom hmoved'.flip)

/-- **A curve goes through the given points without roughness**, twice. -/
theorem parallel_curve (points : List (Point Float)) :
    Parallel (BothAlike (smoothPath points ++ smoothPath points))
      (pen.curve points : Sketch σ (Path Float)) (pen.curve points : Sketch τ (Path Float)) := by
  have hone : unpacked (1.0 * 1.0) = .finite .positive 4503599627370496 (-52) (by decide) := rfl
  have hhalf : unpacked (1.5 * 1.0) = .finite .positive 6755399441055744 (-52) (by decide) := rfl
  have hreach : Tame (1.0 * 1.0) :=
    tame_of_le (by rw [doubleValue_of_unpacked hone]; norm_num)
  have hreach' : Tame (1.5 * 1.0) :=
    tame_of_le (by rw [doubleValue_of_unpacked hhalf]; norm_num)
  unfold Pen.curve
  rw [one_add_zero_mul hflat rfl, one_add_zero_mul hflat rfl]
  split_ifs
  · exact fun _ _ => .error _
  · exact (parallel_smooth hshare hshare' hflat hreach rfl points).bind fun _ _ hfirst =>
      (parallel_smooth hshare hshare' hflat hreach' rfl points).bind fun _ _ hsecond =>
        Parallel.pure ⟨List.rel_append hfirst.1 hsecond.1, List.rel_append hfirst.2 hsecond.2⟩

end Curves

end Scrawl.Stroke
