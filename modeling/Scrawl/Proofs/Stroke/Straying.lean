import Scrawl.Proofs.Stroke.Ink

/-!
# Scrawl.Proofs.Stroke.Straying — how far strokes stray from what they draw

Over the reals nothing stops a stroke that has enough points.  It follows them: twice from one to
the next in a path of lines, in order through the corners of an outline, and twice in order through
the points of a curve.  How near, the roughness of the pen says; without roughness it draws the
given points.

* `Pen.Follows`: what the strokes of a pen are, for what counts as a segment and what as near.
* `follows_of_unitSource`: the distances for any source with numbers between zero and one.
-/

namespace Scrawl.Stroke

open Layered (consecutive)

variable {σ : Type}

/-! ### Sketches that come to their end -/

section Yields

variable {β : Type}

/-- From wherever the source is, the sketch comes to its end with a result that has the property. -/
def Yields (p : β → Prop) (x : Sketch σ β) : Prop := ∀ s, ∃ b rest, x s = (.ok b, rest) ∧ p b

theorem Yields.mono {p q : β → Prop} {x : Sketch σ β} (hx : Yields p x) (hpq : ∀ b, p b → q b) :
    Yields q x := by
  intro s
  obtain ⟨b, rest, hrun, hb⟩ := hx s
  exact ⟨b, rest, hrun, hpq b hb⟩

/-- Over the reals every number can be written and squared. -/
theorem not_arises_real (n : NumberFault) : ¬ n.Arises ℝ := by
  rintro ⟨a, hwrite | hsquare⟩
  · cases hwrite
  · cases hsquare

/-- So a sketch that only numbers can stop comes to its end. -/
theorem Gives.yields {p : β → Prop} {x : Sketch σ β} (hx : Gives p x)
    (hstops : StopsAtNumbers ℝ x) : Yields p x := by
  intro s
  cases hrun : x s with
  | mk result rest =>
    cases result with
    | ok b => exact ⟨b, rest, rfl, hx s b rest hrun⟩
    | error fault =>
      obtain ⟨n, -, harises⟩ := hstops s fault rest hrun
      exact absurd harises (not_arises_real n)

end Yields

/-! ### What is followed -/

section Following

variable {α : Type}

/-- The sides of a path, back to its start if it is closed. -/
def sidesOf (points : List (Point α)) (closed : Bool) : List (Point α × Point α) :=
  if closed then closedSides points else consecutive points

/-- The path is a filled outline whose corners are near to the points. -/
def Encloses (near : Point α → Point α → Prop) (points : List (Point α)) (path : Path α) : Prop :=
  ∃ p rest, path = .move p :: rest.map .line ++ [.close] ∧ List.Forall₂ near (p :: rest) points

/-- The path moves to a point near to the first one and goes on in cubics that end near to the
others. -/
inductive PassesNear (near : Point α → Point α → Prop) : List (Point α) → Path α → Prop
  | mk {start p : Point α} {points : List (Point α)} {path : Path α} (starts : near start p)
      (passes : List.Forall₂ (fun q s => ∃ c d finish, s = .cubic c d finish ∧ near finish q)
        points path) :
      PassesNear near (p :: points) (.move start :: path)

theorem PassesNear.mono {near near' : Point α → Point α → Prop}
    (hnear : ∀ p q, near p q → near' p q) {points : List (Point α)} {path : Path α}
    (h : PassesNear near points path) : PassesNear near' points path := by
  obtain ⟨hstart, hpasses⟩ := h
  refine .mk (hnear _ _ hstart) (hpasses.imp ?_)
  rintro q s ⟨c, d, finish, hs, hfinish⟩
  exact ⟨c, d, finish, hs, hnear _ _ hfinish⟩

theorem Strokes.mono {r r' : Point α → Point α → Path α → Prop}
    (hr : ∀ p q path, r p q path → r' p q path) {sides : List (Point α × Point α)} {path : Path α}
    (h : Strokes r sides path) : Strokes r' sides path := by
  induction h with
  | nil => exact .nil
  | cons first second _ ih => exact .cons (hr _ _ _ first) (hr _ _ _ second) ih

variable [Scalar α] [Source σ α]

/-- What the strokes of a pen are: lines are pairs of segments, outlines have their corners near to
the given points, and curves are two paths that pass near to them.  None of these strokes fails. -/
structure Pen.Follows (σ : Type) [Source σ α] (pen : Pen α)
    (segment : Point α → Point α → Path α → Prop) (corner knot : Point α → Point α → Prop) :
    Prop where
  line (p q : Point α) :
    Yields (Strokes segment [(p, q)]) (pen.line p q : Sketch σ (Path α))
  linearPath {points : List (Point α)} (h : 2 ≤ points.length) (closed : Bool) :
    Yields (Strokes segment (sidesOf points closed))
      (pen.linearPath points closed : Sketch σ (Path α))
  rectangle (x y width height : α) :
    Yields (Strokes segment (closedSides (Pen.corners x y width height)))
      (pen.rectangle x y width height : Sketch σ (Path α))
  outline {points : List (Point α)} (h : points ≠ []) :
    Yields (Encloses corner points) (pen.outline points : Sketch σ (Path α))
  curve {points : List (Point α)} (h : 2 ≤ points.length) :
    Yields (fun path => ∃ first second, path = first ++ second ∧ PassesNear knot points first ∧
      PassesNear knot points second) (pen.curve points : Sketch σ (Path α))

theorem Pen.Follows.mono {pen : Pen α} {segment segment' : Point α → Point α → Path α → Prop}
    {corner corner' knot knot' : Point α → Point α → Prop}
    (hsegment : ∀ p q path, segment p q path → segment' p q path)
    (hcorner : ∀ p q, corner p q → corner' p q) (hknot : ∀ p q, knot p q → knot' p q)
    (h : pen.Follows σ segment corner knot) : pen.Follows σ segment' corner' knot' where
  line p q := (h.line p q).mono fun _ => Strokes.mono hsegment
  linearPath hpoints closed := (h.linearPath hpoints closed).mono fun _ => Strokes.mono hsegment
  rectangle x y width height :=
    (h.rectangle x y width height).mono fun _ => Strokes.mono hsegment
  outline hpoints := (h.outline hpoints).mono fun _ ⟨p, rest, hpath, hcorners⟩ =>
    ⟨p, rest, hpath, hcorners.imp hcorner⟩
  curve hpoints := (h.curve hpoints).mono fun _ ⟨first, second, hpath, hfirst, hsecond⟩ =>
    ⟨first, second, hpath, hfirst.mono hknot, hsecond.mono hknot⟩

/-- A path of lines has two strokes for each of its sides. -/
theorem gives_sidesOf {r : Point α → Point α → Path α → Prop} {pen : Pen α}
    (hr : ∀ overlay p q, Gives (r p q) (pen.segment overlay p q : Sketch σ (Path α)))
    (points : List (Point α)) (closed : Bool) :
    Gives (Strokes r (sidesOf points closed))
      (pen.linearPath points closed : Sketch σ (Path α)) := by
  cases closed with
  | true => exact gives_linearPath hr points
  | false =>
    match points with
    | [] | [_] => exact fun _ _ _ h => by cases h
    | p :: q :: rest => exact (gives_lines hr _).bind fun _ hlines => Gives.pure hlines

/-- The cubics between two outer points end at the points between them. -/
theorem forall₂_catmullSteps (a b z : Point α) (points : List (Point α)) :
    List.Forall₂ (fun p s => ∃ c d, s = .cubic c d p) points
      (catmullSteps (a :: b :: (points ++ [z]))) := by
  induction points generalizing a b with
  | nil => exact .nil
  | cons p points ih =>
    obtain ⟨d, rest, hrest⟩ : ∃ d rest, points ++ [z] = d :: rest :=
      List.exists_cons_of_ne_nil (by simp)
    have htail := ih b p
    rw [hrest] at htail
    rw [List.cons_append, hrest, catmullSteps]
    exact .cons ⟨_, _, rfl⟩ htail

/-- A smooth path passes all its points but the outer two. -/
theorem passesNear_catmullRom {near : Point α → Point α → Prop} {first last : Point α}
    {points moved : List (Point α)} (hne : points ≠ [])
    (h : List.Forall₂ near moved (first :: (points ++ [last]))) :
    PassesNear near points (catmullRom moved) := by
  obtain ⟨p, rest, rfl⟩ := List.exists_cons_of_ne_nil hne
  obtain ⟨a, inner, -, hinner, rfl⟩ := List.forall₂_cons_right_iff.mp h
  obtain ⟨b, others, hb, hothers, rfl⟩ := List.forall₂_cons_right_iff.mp hinner
  have hmid := List.forall₂_take_append _ _ _ hothers
  obtain ⟨z, _, -, hnil, houter⟩ :=
    List.forall₂_cons_right_iff.mp (List.forall₂_drop_append _ _ _ hothers)
  obtain rfl := List.forall₂_nil_right_iff.mp hnil
  have hothers : others = others.take rest.length ++ [z] := by
    rw [← houter, List.take_append_drop]
  rw [hothers]
  refine .mk hb (forall₂_trans hmid.flip (forall₂_catmullSteps a b z _) ?_)
  rintro q finish s hfinish ⟨c, d, rfl⟩
  exact ⟨c, d, finish, rfl, hfinish⟩

end Following

/-! ### Displaced points -/

section Displaced

theorem writtenPath_eq (path : Path ℝ) : (writtenPath path : Sketch σ (Path ℝ)) = pure path := by
  have hstep : ∀ s : Step ℝ, (writtenStep s : Sketch σ (Step ℝ)) = pure s := by
    intro s
    cases s <;> rfl
  induction path with
  | nil => rfl
  | cons s path ih =>
    rw [writtenPath] at ih
    rw [writtenPath, List.mapM_cons, hstep, pure_bind, ih, pure_bind]

variable [Source σ ℝ] (hunit : UnitSource σ) {pen : Pen ℝ} (hrough : 0 ≤ pen.roughness)
include hunit hrough

theorem gives_displaced {reach : ℝ} (hreach : 0 ≤ reach) (p : Point ℝ) :
    Gives (fun q => Near (pen.roughness * reach) q p)
      (pen.displaced reach p : Sketch σ (Point ℝ)) := by
  have hone : |(1.0 : ℝ)| ≤ 1 := by norm_num
  have hdisplacement := Pen.gives_displacement hunit hrough hone (abs_of_nonneg hreach).le
  refine hdisplacement.bind fun dx hdx => hdisplacement.bind fun dy hdy => Gives.pure ⟨?_, ?_⟩
  · rwa [add_sub_cancel_left]
  · rwa [add_sub_cancel_left]

theorem gives_encloses (hspread : 0 ≤ pen.spread) (points : List (Point ℝ)) :
    Gives (Encloses (Near (pen.roughness * pen.spread / 4)) points)
      (pen.outline points : Sketch σ (Path ℝ)) := by
  have hreach : 0 ≤ pen.spread / 4.0 := div_nonneg hspread (by norm_num)
  have hdistance : pen.roughness * (pen.spread / 4.0) = pen.roughness * pen.spread / 4 := by
    norm_num
    ring
  refine (Gives.mapM fun p _ => gives_displaced hunit hrough hreach p).bind fun moved hmoved => ?_
  rw [hdistance] at hmoved
  match moved, hmoved with
  | [], _ => exact fun _ _ _ h => by cases h
  | q :: rest, hmoved =>
    simp only [writtenPath_eq]
    exact Gives.pure ⟨q, rest, rfl, hmoved.flip⟩

theorem gives_smooth {reach : ℝ} (hreach : 0 ≤ reach) {points : List (Point ℝ)}
    (hne : points ≠ []) :
    Gives (PassesNear (Near (pen.roughness * reach)) points)
      (pen.smooth reach points : Sketch σ (Path ℝ)) := by
  obtain ⟨p, rest, rfl⟩ := List.exists_cons_of_ne_nil hne
  refine (Gives.mapM fun p _ => gives_displaced hunit hrough hreach p).bind fun moved hmoved => ?_
  rw [writtenPath_eq]
  exact Gives.pure (passesNear_catmullRom hne hmoved.flip)

/-- How far a curve strays, at most. -/
noncomputable def Pen.veer (pen : Pen ℝ) : ℝ :=
  1.5 * pen.roughness * (1 + 0.22 * pen.roughness)

/-- The first of the two paths strays less far than the second one. -/
theorem gives_curve {points : List (Point ℝ)} (h : 2 ≤ points.length) :
    Gives (fun path => ∃ first second, path = first ++ second ∧
      PassesNear (Near pen.veer) points first ∧ PassesNear (Near pen.veer) points second)
      (pen.curve points : Sketch σ (Path ℝ)) := by
  have hne : points ≠ [] := by
    rintro rfl
    cases h
  have hfirst : 0 ≤ (1.0 : ℝ) * (1.0 + pen.roughness * 0.2) := by positivity
  have hsecond : 0 ≤ (1.5 : ℝ) * (1.0 + pen.roughness * 0.22) := by positivity
  have hless : pen.roughness * (1.0 * (1.0 + pen.roughness * 0.2)) ≤ pen.veer := by
    unfold Pen.veer
    norm_num
    nlinarith [mul_self_nonneg pen.roughness]
  have hmost : pen.roughness * (1.5 * (1.0 + pen.roughness * 0.22)) = pen.veer := by
    unfold Pen.veer
    norm_num
    ring
  unfold Pen.curve
  rw [if_neg (Nat.not_lt.mpr h)]
  refine (gives_smooth hunit hrough hfirst hne).bind fun first hpasses => ?_
  refine (gives_smooth hunit hrough hsecond hne).bind fun second hpasses' => Gives.pure ?_
  rw [hmost] at hpasses'
  exact ⟨first, second, rfl, hpasses.mono fun p q hnear =>
    ⟨hnear.1.trans hless, hnear.2.trans hless⟩, hpasses'⟩

end Displaced

/-! ### Pens -/

section Pens

variable [Source σ ℝ]

/-- **How far a pen strays.**  Let the numbers of the source be between zero and one.  Each of the
two strokes of a segment starts and ends no farther from its ends than the roughness times the
reach, and its control points are no farther from a share between 0.2 and 0.4 of the way, and from
twice the share, than the roughness times the reach and the sway.  The corners of an outline are
no farther from the given points than a quarter of the roughness times the spread, and both paths of
a curve pass the given points in order, no farther from them than its veer.  Without roughness
the segments are straight and the corners and the points of curves are the given points. -/
theorem follows_of_unitSource (hunit : UnitSource σ) {pen : Pen ℝ} (hrough : 0 ≤ pen.roughness)
    (hspread : 0 ≤ pen.spread) :
    pen.Follows σ pen.Loose (Near (pen.roughness * pen.spread / 4)) (Near pen.veer) ∧
      (pen.roughness = 0 → pen.Follows σ Straight Eq Eq) := by
  have hloose := fun overlay p q => Pen.gives_segment hspread p q hunit hrough overlay
  have hfollows : pen.Follows σ pen.Loose (Near (pen.roughness * pen.spread / 4))
      (Near pen.veer) :=
    { line := fun p q => (gives_line hloose p q).yields (stopsAtNumbers_line pen p q)
      linearPath := by
        intro points h closed
        match points, h with
        | p :: q :: rest, _ =>
          exact (gives_sidesOf hloose (p :: q :: rest) closed).yields
            (stopsAtNumbers_linearPath pen p q rest closed)
      rectangle := fun x y width height =>
        (gives_linearPath hloose (Pen.corners x y width height)).yields
          (stopsAtNumbers_rectangle pen x y width height)
      outline := by
        intro points hne
        obtain ⟨p, rest, rfl⟩ := List.exists_cons_of_ne_nil hne
        exact (gives_encloses hunit hrough hspread (p :: rest)).yields
          (stopsAtNumbers_outline pen p rest)
      curve := fun h => (gives_curve hunit hrough h).yields (stopsAtNumbers_curve pen h) }
  refine ⟨hfollows, fun hflat => hfollows.mono ?_ ?_ ?_⟩
  · intro p q path
    exact straight_of_loose hflat
  · intro p q hnear
    rw [hflat, zero_mul, zero_div] at hnear
    exact eq_of_near hnear
  · intro p q hnear
    rw [Pen.veer, hflat, mul_zero, zero_mul] at hnear
    exact eq_of_near hnear

/-- The pen of nodes and edges strays by what the generator gives. -/
theorem follows_mainPen : UnitSource ExactTwister ∧ 0 ≤ (Scene.mainPen (1 : ℝ)).roughness ∧
    0 ≤ (Scene.mainPen (1 : ℝ)).spread ∧
    (Scene.mainPen (1 : ℝ)).Follows ExactTwister (Scene.mainPen (1 : ℝ)).Loose (Near (1 / 2))
      (Near 1.83) ∧
    (Scene.mainPen (0 : ℝ)).Follows ExactTwister Straight Eq Eq := by
  have hspread : ∀ r : ℝ, (Scene.mainPen r).spread = 2 := by norm_num [Scene.mainPen]
  have hrough : 0 ≤ (Scene.mainPen (1 : ℝ)).roughness := zero_le_one
  have hveer : (Scene.mainPen (1 : ℝ)).veer = 1.83 := by norm_num [Pen.veer, Scene.mainPen]
  have hcorner : (Scene.mainPen (1 : ℝ)).roughness * (Scene.mainPen (1 : ℝ)).spread / 4 = 1 / 2 := by
    norm_num [Scene.mainPen]
  have hloose := (follows_of_unitSource unitSource_exactTwister hrough (by norm_num [hspread])).1
  rw [hveer, hcorner] at hloose
  exact ⟨unitSource_exactTwister, hrough, by norm_num [hspread], hloose,
    (follows_of_unitSource unitSource_exactTwister (le_refl (0 : ℝ))
      (by norm_num [hspread])).2 rfl⟩

end Pens

end Scrawl.Stroke
