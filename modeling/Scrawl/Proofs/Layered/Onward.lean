import Scrawl.Proofs.Layered.Routes

/-!
# Scrawl.Proofs.Layered.Onward — routes that do not turn back

The route of an edge that passes ranks goes on along the ranks from its first point to its last.
One between neighbouring ranks has the point halfway between the centres of its ends as its middle
point, which may lie inside the thicker box of the two; the route, which begins or ends on the
border of that box, then leads through it.

* `onward_of_between`: routes over points between two boxes.
* `keepsOn_direct_iff`: routes over the point halfway between two centres.
* `layout_keepsOn`: the routes of a layout; `layout_keepsOn_tower` is one that turns back.
-/

namespace Scrawl

/-- No two edges between different nodes join the same two. -/
def Graph.Simple {α : Type} (g : Graph α) : Prop :=
  g.edges.Pairwise fun e f => e.source ≠ e.target →
    ¬ (e.source = f.source ∧ e.target = f.target ∨ e.source = f.target ∧ e.target = f.source)

/-- The points never turn back along the ranks. -/
def Direction.KeepsOn (d : Direction) (route : List (Point ℝ)) : Prop :=
  (route.map d.along).Pairwise (· ≤ ·) ∨ (route.map d.along).Pairwise (· ≥ ·)

namespace Layered

variable {n : ℕ} {d : Direction} {s t : Placed ℝ} {via : List (Point ℝ)}

/-! ### Routes from both ends -/

theorem routeThrough_eq (hne : via ≠ []) (direct : Point ℝ) : routeThrough s t via direct =
    borderPoint s (via.head hne) :: (via ++ [borderPoint t (via.getLast hne)]) := by
  obtain ⟨p, ps, rfl⟩ := List.exists_cons_of_ne_nil hne
  simp only [routeThrough, routeOver, List.head_cons, List.cons_append, List.getLastD_cons,
    List.getLast_eq_getLastD]

/-- The way back is the route over the points in the other order. -/
theorem routeThrough_reverse (hne : via ≠ []) (direct : Point ℝ) :
    (routeThrough s t via direct).reverse = routeThrough t s via.reverse direct := by
  rw [routeThrough_eq hne, routeThrough_eq (List.reverse_ne_nil_iff.mpr hne)]
  simp

theorem keepsOn_reverse {route : List (Point ℝ)} :
    d.KeepsOn route.reverse ↔ d.KeepsOn route := by
  simp only [Direction.KeepsOn, List.map_reverse, List.pairwise_reverse]
  exact or_comm

/-- The ends of lines that do not go through a box are not inside it. -/
theorem not_inside_of_not_entered {b : Box ℝ} {p q : Point ℝ} {l : List (Point ℝ)}
    (h : ¬ b.Entered (p :: (l ++ [q]))) : ∀ r ∈ p :: l, ¬ b.Inside r := by
  induction l generalizing p with
  | nil =>
    intro r hr hin
    obtain rfl := List.mem_singleton.mp hr
    exact h ⟨(r, q), by simp [consecutive], 0, le_rfl, zero_le_one, by simpa [Point.toward]⟩
  | cons a l ih =>
    rw [List.cons_append] at h
    intro r hr hin
    rcases List.mem_cons.mp hr with rfl | hr
    · exact h ⟨(r, a), by simp, 0, le_rfl, zero_le_one, by simpa [Point.toward]⟩
    · refine ih (fun hentered => ?_) r hr hin
      obtain ⟨e, he, hc⟩ := hentered
      refine h ⟨e, ?_, hc⟩
      rw [consecutive_cons_cons]
      exact List.mem_cons_of_mem _ he

/-! ### Routes over points between two boxes -/

theorem along_of_onBorder (hd : d ∈ Direction.all) {w h : ℝ} {c p : Point ℝ}
    (hp : OnBorder (Node.boxAt w h c) p) :
    |d.along p - d.along c| ≤ (extentOf d (w, h)).along / 2 := by
  obtain ⟨hleft, hright, htop, hbottom, -⟩ := hp
  norm_num only [Node.boxAt] at hleft hright htop hbottom
  rw [abs_le]
  rcases direction_cases hd with rfl | rfl | rfl | rfl <;>
    simp only [Direction.along, extentOf, isHorizontal_cases, if_true, if_false,
      Bool.false_eq_true] <;>
    constructor <;> linarith

/-- The points stand between the boxes, one after the other along the ranks. -/
structure Between (d : Direction) (s t : Placed ℝ) (via : List (Point ℝ)) : Prop where
  rises : (via.map d.along).Pairwise (· ≤ ·)
  behind : ∀ q ∈ via,
    d.along s.center + (extentOf d (s.width, s.height)).along / 2 ≤ d.along q
  before : ∀ q ∈ via,
    d.along q ≤ d.along t.center - (extentOf d (t.width, t.height)).along / 2

section Pair

variable (hd : d ∈ Direction.all) (hs : 0 < s.width ∧ 0 < s.height)
  (ht : 0 < t.width ∧ 0 < t.height) (hne : via ≠ []) (direct : Point ℝ)
include hd hs

/-- A point beyond a box along the ranks is not inside it, nor its centre. -/
theorem outside_of_aside {q : Point ℝ}
    (hq : Aside d s.width s.height s.center q q) :
    q ≠ s.center ∧ ¬ (Node.boxAt s.width s.height s.center).Inside q := by
  have hthick := (extentOf_pos d hs.1 hs.2).2
  constructor
  · rintro rfl
    rcases hq with ⟨hq, -⟩ | ⟨hq, -⟩ <;> linarith
  · intro hin
    exact not_crossed_of_aside hd hq ⟨0, le_rfl, zero_le_one, by simpa [Point.toward]⟩

/-- A route whose points but the first are all on one side of the box from which it comes does not
go through that box. -/
theorem not_entered_start
    (hside : (∀ q ∈ via ++ [borderPoint t (via.getLast hne)],
        (extentOf d (s.width, s.height)).along / 2 ≤ d.along q - d.along s.center) ∨
      ∀ q ∈ via ++ [borderPoint t (via.getLast hne)],
        (extentOf d (s.width, s.height)).along / 2 ≤ d.along s.center - d.along q) :
    ¬ (Node.boxAt s.width s.height s.center).Entered (routeThrough s t via direct) := by
  have haside : ∀ q ∈ via ++ [borderPoint t (via.getLast hne)],
      ∀ r ∈ via ++ [borderPoint t (via.getLast hne)], Aside d s.width s.height s.center q r :=
    fun q hq r hr => hside.elim (fun h => .behind (h q hq) (h r hr)) fun h =>
      .before (h q hq) (h r hr)
  obtain ⟨p, ps, rfl⟩ := List.exists_cons_of_ne_nil hne
  have hp : p ∈ p :: ps ++ [borderPoint t ((p :: ps).getLast hne)] := List.mem_cons_self
  obtain ⟨hcenter, hout⟩ := outside_of_aside hd hs (haside p hp p hp)
  obtain ⟨k, -, hfirst, hbeyond, hk⟩ := exists_reach hs.1 hs.2 hcenter
  rw [routeThrough_eq hne, List.head_cons, List.cons_append]
  rintro ⟨e, he, hcrossed⟩
  rw [consecutive_cons_cons] at he
  rcases List.mem_cons.mp he with rfl | he
  · obtain ⟨τ, h0, -, hin⟩ := hcrossed
    have hfrom := toward_toward s.center p k 1 τ
    rw [toward_one] at hfrom
    dsimp only at hin
    rw [hfirst, hfrom] at hin
    exact hbeyond _ (by nlinarith [hk.mpr hout]) hin
  · obtain ⟨hfrom, hto⟩ := mem_of_mem_consecutive he
    exact not_crossed_of_aside hd (haside _ hfrom _ hto) hcrossed

include ht hne

/-- **A route over points between two boxes goes on along the ranks** and through neither box. -/
theorem onward_of_between (h : Between d s t via) :
    ((routeThrough s t via direct).map d.along).Pairwise (· ≤ ·) ∧
      ¬ (Node.boxAt s.width s.height s.center).Entered (routeThrough s t via direct) ∧
      ¬ (Node.boxAt t.width t.height t.center).Entered (routeThrough s t via direct) := by
  have hhead := List.head_mem hne
  have hlast := List.getLast_mem hne
  have hnotS := (outside_of_aside hd hs (q := via.head hne)
    (.behind (by linarith [h.behind _ hhead]) (by linarith [h.behind _ hhead]))).1
  have hnotT := (outside_of_aside hd ht (q := via.getLast hne)
    (.before (by linarith [h.before _ hlast]) (by linarith [h.before _ hlast]))).1
  have hfirst := abs_le.mp (along_of_onBorder hd (onBorder_borderPoint hs.1 hs.2 hnotS))
  have hend := abs_le.mp (along_of_onBorder hd (onBorder_borderPoint ht.1 ht.2 hnotT))
  refine ⟨?_, ?_, ?_⟩
  · rw [routeThrough_eq hne, List.map_cons, List.map_append, List.pairwise_cons,
      List.pairwise_append]
    simp only [List.map_cons, List.map_nil, List.mem_append, List.mem_map, List.mem_singleton,
      List.pairwise_singleton, true_and, forall_eq]
    refine ⟨?_, h.rises, ?_⟩
    · rintro _ (⟨q, hq, rfl⟩ | rfl)
      · linarith [h.behind q hq]
      · linarith [h.behind _ hlast, h.before _ hlast]
    · rintro _ ⟨q, hq, rfl⟩
      linarith [h.before q hq]
  · refine not_entered_start hd hs hne direct (Or.inl fun q hq => ?_)
    rcases List.mem_append.mp hq with hq | hq
    · linarith [h.behind q hq]
    · rw [List.mem_singleton.mp hq]
      linarith [h.behind _ hlast, h.before _ hlast]
  · -- the other box is the one from which the way back comes
    rw [← entered_reverse, routeThrough_reverse hne]
    refine not_entered_start hd ht (List.reverse_ne_nil_iff.mpr hne) direct (Or.inr fun q hq => ?_)
    rcases List.mem_append.mp hq with hq | hq
    · linarith [h.before q (List.mem_reverse.mp hq)]
    · rw [List.mem_singleton.mp hq, List.getLast_reverse]
      linarith [h.behind _ hhead, h.before _ hhead]

/-- The same whichever way the ranks follow each other. -/
theorem keepsOn_of_between (h : Between d s t via ∨ Between d t s via.reverse) :
    d.KeepsOn (routeThrough s t via direct) ∧
      ¬ (Node.boxAt s.width s.height s.center).Entered (routeThrough s t via direct) ∧
      ¬ (Node.boxAt t.width t.height t.center).Entered (routeThrough s t via direct) := by
  rcases h with h | h
  · obtain ⟨hon, hs, ht⟩ := onward_of_between hd hs ht hne direct h
    exact ⟨Or.inl hon, hs, ht⟩
  · obtain ⟨hon, ht, hs⟩ := onward_of_between hd ht hs (List.reverse_ne_nil_iff.mpr hne) direct h
    rw [← routeThrough_reverse hne] at hon hs ht
    exact ⟨keepsOn_reverse.mp (Or.inl hon), entered_reverse.not.mp hs, entered_reverse.not.mp ht⟩

end Pair

/-! ### Routes over the point halfway between two boxes -/

theorem along_midpoint (d : Direction) (p q : Point ℝ) :
    d.along (midpoint p q) = (d.along p + d.along q) / 2 := by
  cases d <;> simp only [Direction.along, midpoint_eq] <;> ring

/-- Beyond the halfway point a line to it goes on to the other end. -/
theorem toward_midpoint (p q : Point ℝ) (t : ℝ) :
    q.toward (midpoint p q) t = p.toward (midpoint p q) (2 - t) := by
  simp only [Point.toward, midpoint_eq, Point.mk.injEq]
  constructor <;> ring

section Direct

variable (hs : 0 < s.width ∧ 0 < s.height) (ht : 0 < t.width ∧ 0 < t.height)
include hs ht

/-- A route over the halfway point does not go through the box from which it comes, if that point
is in neither box. -/
theorem not_entered_direct (hne : s.center ≠ t.center)
    (hsource : ¬ (Node.boxAt s.width s.height s.center).Inside (midpoint s.center t.center))
    (htarget : ¬ (Node.boxAt t.width t.height t.center).Inside (midpoint s.center t.center)) :
    ¬ (Node.boxAt s.width s.height s.center).Entered
      (routeThrough s t [] (midpoint s.center t.center)) := by
  obtain ⟨hneS, hneT⟩ : midpoint s.center t.center ≠ s.center ∧
      midpoint s.center t.center ≠ t.center := directMiddle_ne 0 ⟨0, 0⟩ true hne
  obtain ⟨k, -, hfirst, hbeyond, hk⟩ := exists_reach hs.1 hs.2 hneS
  obtain ⟨m, -, hlast, -, hm⟩ := exists_reach ht.1 ht.2 hneT
  rw [toward_midpoint] at hlast
  have hlines : routeThrough s t [] (midpoint s.center t.center) =
      [borderPoint s (midpoint s.center t.center), midpoint s.center t.center,
        borderPoint t (midpoint s.center t.center)] := rfl
  -- all three points are on one line from the centre of the box, from its border on
  rw [hlines, hfirst, hlast]
  have hk := hk.mpr hsource
  have hm := hm.mpr htarget
  rintro ⟨e, he, τ, h0, h1, hin⟩
  rw [consecutive_cons_cons, consecutive_cons_cons] at he
  rcases List.mem_cons.mp he with rfl | he
  · have hfrom := toward_toward s.center (midpoint s.center t.center) k 1 τ
    rw [toward_one] at hfrom
    dsimp only at hin
    rw [hfrom] at hin
    exact hbeyond _ (by nlinarith) hin
  · rcases List.mem_cons.mp he with rfl | he
    · have hfrom := toward_toward s.center (midpoint s.center t.center) 1 (2 - m) τ
      rw [toward_one] at hfrom
      dsimp only at hin
      rw [hfrom] at hin
      exact hbeyond _ (by nlinarith) hin
    · simp [consecutive] at he

/-- **A route over the halfway point keeps on just if that point is in neither box,** for boxes
that are apart along the ranks. -/
theorem keepsOn_direct_of_le (hd : d ∈ Direction.all)
    (hfar : d.along s.center + (extentOf d (s.width, s.height)).along / 2 ≤
      d.along t.center - (extentOf d (t.width, t.height)).along / 2) :
    d.KeepsOn (routeThrough s t [] (midpoint s.center t.center)) ↔
      ¬ (Node.boxAt s.width s.height s.center).Inside (midpoint s.center t.center) ∧
        ¬ (Node.boxAt t.width t.height t.center).Inside (midpoint s.center t.center) := by
  have hthickS := (extentOf_pos d hs.1 hs.2).2
  have hthickT := (extentOf_pos d ht.1 ht.2).2
  have hne : s.center ≠ t.center := fun h => by
    rw [h] at hfar
    linarith
  obtain ⟨hneS, hneT⟩ : midpoint s.center t.center ≠ s.center ∧
      midpoint s.center t.center ≠ t.center := directMiddle_ne 0 ⟨0, 0⟩ true hne
  have hborderS := abs_le.mp (along_of_onBorder hd (onBorder_borderPoint hs.1 hs.2 hneS))
  have hborderT := abs_le.mp (along_of_onBorder hd (onBorder_borderPoint ht.1 ht.2 hneT))
  obtain ⟨k, -, hfirst, -, hk⟩ := exists_reach hs.1 hs.2 hneS
  obtain ⟨m, -, hlast, -, hm⟩ := exists_reach ht.1 ht.2 hneT
  have hmiddle := along_midpoint d s.center t.center
  have hpoints : (routeThrough s t [] (midpoint s.center t.center)).map d.along =
      [d.along (borderPoint s (midpoint s.center t.center)),
        d.along (midpoint s.center t.center),
        d.along (borderPoint t (midpoint s.center t.center))] := rfl
  rw [← hk, ← hm, Direction.KeepsOn, hpoints]
  simp only [List.pairwise_cons, List.mem_cons, List.not_mem_nil, or_false, forall_eq_or_imp,
    forall_eq, List.Pairwise.nil, and_true, IsEmpty.forall_iff, implies_true]
  rw [hfirst, along_toward, hmiddle] at hborderS ⊢
  rw [hlast, along_toward, hmiddle] at hborderT ⊢
  set S := d.along s.center
  set T := d.along t.center
  have hway : 0 < T - S := by linarith
  constructor
  · rintro (⟨⟨hup, -⟩, hup'⟩ | ⟨⟨hdown, -⟩, hdown'⟩)
    · exact ⟨by nlinarith, by nlinarith⟩
    · exact ⟨by nlinarith, by nlinarith⟩
  · rintro ⟨hk, hm⟩
    exact Or.inl ⟨⟨by nlinarith, by nlinarith⟩, by nlinarith⟩

/-- The same whichever way the ranks follow each other; and then it goes through neither box. -/
theorem keepsOn_direct_iff (hd : d ∈ Direction.all)
    (hfar : d.along s.center + (extentOf d (s.width, s.height)).along / 2 ≤
        d.along t.center - (extentOf d (t.width, t.height)).along / 2 ∨
      d.along t.center + (extentOf d (t.width, t.height)).along / 2 ≤
        d.along s.center - (extentOf d (s.width, s.height)).along / 2) :
    let route := routeThrough s t [] (midpoint s.center t.center)
    (d.KeepsOn route ↔
      ¬ (Node.boxAt s.width s.height s.center).Inside (midpoint s.center t.center) ∧
        ¬ (Node.boxAt t.width t.height t.center).Inside (midpoint s.center t.center)) ∧
    (d.KeepsOn route ↔ ¬ (Node.boxAt s.width s.height s.center).Entered route ∧
      ¬ (Node.boxAt t.width t.height t.center).Entered route) := by
  intro route
  have hne : s.center ≠ t.center := fun h => by
    have hthickS := (extentOf_pos d hs.1 hs.2).2
    have hthickT := (extentOf_pos d ht.1 ht.2).2
    rw [h] at hfar
    rcases hfar with hfar | hfar <;> linarith
  have hback : route.reverse = routeThrough t s [] (midpoint t.center s.center) := by
    rw [midpoint_comm t.center]
    exact routeThrough_reverse (List.cons_ne_nil _ _) (midpoint s.center t.center)
  have hinside : d.KeepsOn route ↔
      ¬ (Node.boxAt s.width s.height s.center).Inside (midpoint s.center t.center) ∧
        ¬ (Node.boxAt t.width t.height t.center).Inside (midpoint s.center t.center) := by
    rcases hfar with hfar | hfar
    · exact keepsOn_direct_of_le hs ht hd hfar
    · have hturned := keepsOn_direct_of_le ht hs hd hfar
      rwa [← hback, keepsOn_reverse, midpoint_comm, and_comm] at hturned
  refine ⟨hinside, hinside.trans ⟨fun ⟨hsource, htarget⟩ => ⟨?_, ?_⟩, fun ⟨hsource, htarget⟩ => ?_⟩⟩
  · exact not_entered_direct hs ht hne hsource htarget
  · rw [← entered_reverse, hback]
    rw [midpoint_comm] at hsource htarget
    exact not_entered_direct ht hs hne.symm htarget hsource
  · exact ⟨not_inside_of_not_entered (l := [_]) hsource _ (by simp),
      not_inside_of_not_entered (l := [_]) htarget _ (by simp)⟩

end Direct

/-! ### Layouts -/

theorem midpoint_of_single (gap : ℝ) {share : Share} (hsingle : share.count ≤ 1) (s t : Placed ℝ)
    (inOrder : Bool) : directMiddle gap share s t inOrder = midpoint s.center t.center := by
  unfold directMiddle
  rw [if_neg (by omega)]

/-- In a simple graph an edge between two nodes has no other beside it. -/
theorem count_of_simple {α : Type} {g : Graph α} (h : g.Simple) {e : Edge α}
    (hne : e.source ≠ e.target) : g.edges.countP (joinsSame e) ≤ 1 := by
  have hpair := List.Pairwise.filter (joinsSame e) h
  rw [List.countP_eq_length_filter]
  match hjoins : g.edges.filter (joinsSame e) with
  | [] | [_] => simp
  | f :: f' :: fs =>
    rw [hjoins] at hpair
    have hmem : ∀ x ∈ [f, f'], e.source = x.source ∧ e.target = x.target ∨
        e.source = x.target ∧ e.target = x.source := by
      intro x hx
      have hx' : x ∈ g.edges.filter (joinsSame e) := by
        rw [hjoins]
        rcases List.mem_cons.mp hx with rfl | hx
        · exact List.mem_cons_self
        · exact List.mem_cons_of_mem _ (List.mem_singleton.mp hx ▸ List.mem_cons_self)
      simpa [joinsSame] using (List.mem_filter.mp hx').2
    have hapart := List.rel_of_pairwise_cons hpair (List.mem_cons_self)
    have hf := hmem f (by simp)
    have hf' := hmem f' (by simp)
    grind

theorem passed_sorted {ranks : Vector ℕ n} {a : Arc n}
    (hlt : ranks.get a.source < ranks.get a.target) : (passed ranks a).Pairwise (· < ·) := by
  rw [passed, if_pos hlt.le]
  exact List.pairwise_lt_range'

theorem passed_turned (ranks : Vector ℕ n) {a : Arc n}
    (hne : ranks.get a.source ≠ ranks.get a.target) :
    passed ranks a.turned = (passed ranks a).reverse := by
  rcases Nat.lt_or_gt_of_ne hne with hlt | hgt
  · have hdown : ¬ ranks.get a.turned.source ≤ ranks.get a.turned.target := Nat.not_le.mpr hlt
    simp only [passed, if_neg hdown, if_pos hlt.le]
    rfl
  · have hup : ranks.get a.turned.source ≤ ranks.get a.turned.target := hgt.le
    simp only [passed, if_pos hup, if_neg (Nat.not_le.mpr hgt), List.reverse_reverse]
    rfl

section LaidOut

variable {g g' : Graph ℝ} {arcs : List (Arc g.nodes.length)} {point : Stop g.nodes.length → Point ℝ}
  (h : LaidOut g g' arcs point)
include h

/-- Boxes of different ranks are a rank gap apart. -/
theorem LaidOut.far (u w : Fin g.nodes.length)
    (hlt : (plan arcs).ranks.get u < (plan arcs).ranks.get w) :
    g.direction.along (placedAt g point u).center + (extentOf g.direction
        ((placedAt g point u).width, (placedAt g point u).height)).along / 2 + g.rankGap ≤
      g.direction.along (placedAt g point w).center - (extentOf g.direction
        ((placedAt g point w).width, (placedAt g point w).height)).along / 2 := by
  rw [extentOf_placedAt, extentOf_placedAt]
  exact h.layered _ (mem_allStops_node u) _ (mem_allStops_node w) hlt

/-- The stops of an edge stand between the boxes of its ends. -/
theorem LaidOut.between (hk : 0 ≤ g.rankGap) {a : Arc g.nodes.length} (ha : a ∈ arcs)
    {u w : Fin g.nodes.length} {rs : List ℕ} (hsorted : rs.Pairwise (· < ·))
    (hpassed : ∀ r ∈ rs, r ∈ passed (plan arcs).ranks a)
    (hrank : ∀ r ∈ rs, (plan arcs).ranks.get u < r ∧ r < (plan arcs).ranks.get w) :
    Between g.direction (placedAt g point u) (placedAt g point w)
      (rs.map fun r => point (.via a.edge r)) := by
  have hstop : ∀ r ∈ rs, Stop.via a.edge r ∈ allStops (plan arcs).ranks (plan arcs).arcs :=
    fun r hr => via_mem_allStops h.represents.nodup_edge ha (hpassed r hr)
  refine ⟨?_, fun q hq => ?_, fun q hq => ?_⟩
  · rw [List.map_map, List.pairwise_map]
    refine hsorted.imp_of_mem fun {r r'} hr hr' hlt => ?_
    have hgap := h.layered _ (hstop r hr) _ (hstop r' hr') hlt
    simp only [stopExtent_via, zero_div, add_zero, sub_zero] at hgap
    exact (le_add_of_nonneg_right hk).trans hgap
  · obtain ⟨r, hr, rfl⟩ := List.mem_map.mp hq
    have hgap := h.layered _ (mem_allStops_node u) _ (hstop r hr) (hrank r hr).1
    rw [extentOf_placedAt]
    simp only [stopExtent_via, zero_div, sub_zero] at hgap
    exact (le_add_of_nonneg_right hk).trans hgap
  · obtain ⟨r, hr, rfl⟩ := List.mem_map.mp hq
    have hgap := h.layered _ (hstop r hr) _ (mem_allStops_node w) (hrank r hr).2
    rw [extentOf_placedAt]
    simp only [stopExtent_via, zero_div, add_zero] at hgap
    exact (le_add_of_nonneg_right hk).trans hgap

/-- The same whichever way the edge leads. -/
theorem LaidOut.between_ends (hk : 0 ≤ g.rankGap) {a : Arc g.nodes.length} (ha : a ∈ arcs)
    (hne : a.source ≠ a.target) :
    let via := (passed (plan arcs).ranks a).map fun r => point (.via a.edge r)
    Between g.direction (placedAt g point a.source) (placedAt g point a.target) via ∨
      Between g.direction (placedAt g point a.target) (placedAt g point a.source) via.reverse := by
  have hrank := h.rank_ne ha hne
  rcases Nat.lt_or_gt_of_ne hrank with hlt | hgt
  · refine Or.inl (h.between hk ha (passed_sorted hlt) (fun _ hr => hr) fun r hr => ?_)
    rcases mem_passed.mp hr with hr | hr <;> omega
  · refine Or.inr ?_
    rw [← List.map_reverse, ← passed_turned _ hrank]
    refine h.between hk ha (passed_sorted (a := a.turned) hgt) (fun r hr => ?_) fun r hr => ?_
    · rwa [passed_turned _ hrank, List.mem_reverse] at hr
    · rcases mem_passed.mp hr with ⟨hlow, hhigh⟩ | ⟨hlow, hhigh⟩
      · exact ⟨hlow, hhigh⟩
      · exact absurd (hlow.trans hhigh) (not_lt.mpr hgt.le)

end LaidOut

/-- **Routes do not turn back, unless their middle point lies inside a box.**  For a simple graph
whose edges join its nodes, with positive sizes, gaps that are not negative and one of the four
directions: the route of an edge between two nodes never turns back along the ranks if and only if
it goes through neither of the boxes of its ends.  That is so of every edge that passes ranks.  An
edge that passes none has the point halfway between the two centres for its middle point, and its
route does not turn back if and only if that point lies inside neither box, as when one box is
thicker than the other by two rank gaps at most. -/
theorem layout_keepsOn (g : Graph ℝ) (hj : g.Joined) (hsimple : g.Simple) (hm : Measured g)
    (hd : g.direction ∈ Direction.all) (hn : 0 ≤ g.nodeGap) (hk : 0 ≤ g.rankGap) :
    ∃ (arcs : List (Arc g.nodes.length)) (g' : Graph ℝ) (size : ℝ × ℝ),
      g.arcs = .ok arcs ∧ g.Represents arcs ∧ layout g = .ok (g', size) ∧
      ∀ a ∈ arcs, a.source ≠ a.target →
        ∃ (e : Edge ℝ) (route : List (Point ℝ)) (b c : Box ℝ) (p q : Point ℝ),
          g.edges[a.edge]? = some e ∧ g'.edges[a.edge]? = some { e with points := route } ∧
          HasBox g g' a.source b ∧ HasBox g g' a.target c ∧
          HasCenter g' a.source p ∧ HasCenter g' a.target q ∧
          (g.direction.KeepsOn route ↔ ¬ b.Entered route ∧ ¬ c.Entered route) ∧
          (passed (plan arcs).ranks a ≠ [] → g.direction.KeepsOn route) ∧
          (passed (plan arcs).ranks a = [] →
            (∃ first last, route = [first, midpoint p q, last]) ∧
            (g.direction.KeepsOn route ↔ ¬ b.Inside (midpoint p q) ∧ ¬ c.Inside (midpoint p q))) ∧
          (|g.direction.thickness b - g.direction.thickness c| ≤ 2 * g.rankGap →
            g.direction.KeepsOn route) := by
  obtain ⟨arcs, g', size, point, ha, hl, h⟩ := layout_laidOut g hj hm hn hk
  refine ⟨arcs, g', size, ha, h.represents, hl, fun a haa hne => ?_⟩
  obtain ⟨e, he, hroute⟩ := h.route a haa hne
  have hs := placedAt_pos hm point a.source
  have ht := placedAt_pos hm point a.target
  have hends : e.source ≠ e.target := by
    obtain ⟨e', he', hsource, htarget⟩ := h.represents.exists_edge haa
    obtain rfl := Option.some.inj (he.symm.trans he')
    intro heq
    rw [heq, htarget] at hsource
    exact hne (Option.some.inj hsource).symm
  rw [midpoint_of_single _ (count_of_simple hsimple hends)] at hroute
  refine ⟨e, _, _, _, _, _, he, hroute, h.hasBox hm a.source, h.hasBox hm a.target,
    h.hasCenter a.source, h.hasCenter a.target, ?_⟩
  by_cases hpassed : passed (plan arcs).ranks a = []
  · -- the boxes are of different ranks, so that they are a rank gap apart
    have hfar := (Nat.lt_or_gt_of_ne (h.rank_ne haa hne)).imp (h.far a.source a.target)
      (h.far a.target a.source)
    obtain ⟨hinside, hentered⟩ := keepsOn_direct_iff hs ht hd
      (hfar.imp (le_add_of_nonneg_right hk).trans (le_add_of_nonneg_right hk).trans)
    rw [hpassed, List.map_nil]
    refine ⟨hentered, fun h => absurd rfl h, fun _ => ⟨⟨_, _, rfl⟩, hinside⟩, fun hclose => ?_⟩
    rw [thickness_boxAt, thickness_boxAt, abs_le] at hclose
    refine hinside.mpr ⟨fun hin => ?_, fun hin => ?_⟩
    · have hin := ((inside_boxAt hd).mp hin).2
      rw [along_midpoint, abs_lt] at hin
      rcases hfar with hfar | hfar <;> linarith
    · have hin := ((inside_boxAt hd).mp hin).2
      rw [along_midpoint, abs_lt] at hin
      rcases hfar with hfar | hfar <;> linarith
  · obtain ⟨hon, hsource, htarget⟩ := keepsOn_of_between hd hs ht
      (mt List.map_eq_nil_iff.mp hpassed)
      (midpoint (placedAt g point a.source).center (placedAt g point a.target).center)
      (h.between_ends hk haa hne)
    exact ⟨iff_of_true hon ⟨hsource, htarget⟩, fun _ => hon, fun hnil => absurd hnil hpassed,
      fun _ => hon⟩

/-! ### A route that turns back -/

/-- A tall box above a low one. -/
noncomputable def tower : Graph ℝ := sized [("a", 96, 200), ("b", 96, 40)] [⟨"a", "b", []⟩]

/-- The arc from the tall box to the low one. -/
def towerArc : Arc tower.nodes.length := ⟨0, ⟨0, by decide⟩, ⟨1, by decide⟩⟩

theorem pack_tower : pack ⟨tower.direction, tower.nodeGap, tower.rankGap⟩
    (Vector.ofFn fun u => sizeOrZero (tower.nodes.get u)) (plan [towerArc]).rows =
      [(.node towerArc.source, ⟨48, 100⟩), (.node towerArc.target, ⟨48, 270⟩)] := by
  have hrows : (plan [towerArc]).rows = [[.node towerArc.source], [.node towerArc.target]] := by
    decide +kernel
  have hsource : stopExtent tower (.node towerArc.source) = ⟨96, 200⟩ := stopExtent_node _ _
  have htarget : stopExtent tower (.node towerArc.target) = ⟨96, 40⟩ := stopExtent_node _ _
  have hdirection : tower.direction = .topBottom := rfl
  have hgap : tower.rankGap = 50 := rfl
  rw [stopExtent] at hsource htarget
  simp only [pack, hrows, List.map_cons, List.map_nil, hsource, htarget]
  norm_num [placeRows, placeRow, spanOf, bandOf, orient, Scalar.largestOrZero, Scalar.largest,
    Scalar.sum, Scalar.max, Scalar.ofNat, hdirection, hgap]

/-- The route from the tall box to the low one turns back: the point halfway between the centres
lies inside the tall box. -/
theorem layout_keepsOn_tower : tower.Joined ∧ tower.Simple ∧ Measured tower ∧
    tower.direction ∈ Direction.all ∧ 0 ≤ tower.nodeGap ∧ 0 ≤ tower.rankGap ∧
    ∃ g' size route, layout tower = .ok (g', size) ∧
      g'.edges[0]? = some { source := "a", target := "b", points := route } ∧
      ¬ tower.direction.KeepsOn route := by
  have hj : tower.Joined := by simp [Graph.Joined, Graph.ids, tower, sized]
  have hsimple : tower.Simple := List.pairwise_singleton _ _
  have hm : Measured tower := measured_sized _ (by decide)
  have hd : tower.direction ∈ Direction.all := by simp [tower, sized, Direction.all]
  have hn : 0 ≤ tower.nodeGap := by norm_num [tower, sized]
  have hk : 0 ≤ tower.rankGap := by norm_num [tower, sized]
  refine ⟨hj, hsimple, hm, hd, hn, hk, ?_⟩
  obtain ⟨arcs, g', size, ha, -, hl, hroutes⟩ := layout_keepsOn tower hj hsimple hm hd hn hk
  obtain ⟨arcs', g'', size', point, ha', hl', h⟩ := layout_laidOut tower hj hm hn hk
  obtain rfl : [towerArc] = arcs := Except.ok.inj ha
  obtain rfl : [towerArc] = arcs' := Except.ok.inj ha'
  obtain ⟨rfl, rfl⟩ := Prod.mk.inj (Except.ok.inj (hl'.symm.trans hl))
  obtain ⟨e, route, b, c, p, q, he, he', hb, -, hp, hq, -, -, hdirect, -⟩ :=
    hroutes towerArc (List.mem_singleton_self _) (by decide)
  obtain rfl : (⟨"a", "b", []⟩ : Edge ℝ) = e := Option.some.inj he
  refine ⟨g'', size', route, hl', he', ?_⟩
  -- where the two centres are
  obtain ⟨v, hv⟩ := h.exists_shift
  rw [pack_tower] at hv
  have hsource : p = (⟨48, 100⟩ : Point ℝ).shift v :=
    (hp.unique (h.hasCenter towerArc.source)).trans (hv _ (mem_allStops_node towerArc.source) _ rfl)
  have htarget : q = (⟨48, 270⟩ : Point ℝ).shift v :=
    (hq.unique (h.hasCenter towerArc.target)).trans (hv _ (mem_allStops_node towerArc.target) _ rfl)
  have hsize : sizeOrZero (tower.nodes.get towerArc.source) = (96, 200) := rfl
  have hin : b.Inside (midpoint p q) := by
    rw [hb.eq_boxAt hp, hsize, hsource, htarget]
    norm_num only [Box.Inside, Node.boxAt, midpoint, Point.shift]
    exact ⟨by linarith, by linarith, by linarith, by linarith⟩
  rw [(hdirect (by decide +kernel)).2]
  exact fun hout => hout.1 hin

end Layered

end Scrawl
