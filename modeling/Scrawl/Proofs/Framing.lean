import Scrawl.Proofs.Decimal.Figures
import Scrawl.Proofs.Layered.Frames
import Scrawl.Proofs.Layout

/-!
# Scrawl.Proofs.Framing — every layout reaches its margins

Whichever engine places a graph, the drawing is then moved by one vector, and its box sides and
route points reach the four margins of the size that the layout gives.

* `toFixed_valueOf`: a real number is written as the double of that value.
* `layout_framed`: what framing makes of the placement of an engine.
-/

namespace Scrawl

/-! ### Reals in text -/

namespace Decimal

/-- A numeral stands for its rational number. -/
noncomputable instance : OfNumeral ℝ where
  ofNumeral? n := (OfNumeral.ofNumeral? n : Option ℚ).map (↑)

/-- The nearest natural number, a half going to the even one. -/
noncomputable def nearest (a : ℝ) : ℕ :=
  if a - ⌊a⌋₊ < ⌊a⌋₊ + 1 - a ∨ a - ⌊a⌋₊ = ⌊a⌋₊ + 1 - a ∧ Even ⌊a⌋₊ then ⌊a⌋₊ else ⌊a⌋₊ + 1

/-- A real number is rounded to the places, as a double is. -/
noncomputable instance : ToFixed ℝ where
  toFixed places a :=
    String.ofList (signChars (decide (a < 0)) ++
      placePoint places (nearest (|a| * (pow10 places : ℕ))))

theorem nearest_div (num : ℕ) {den : ℕ} (h : 0 < den) :
    nearest (num / den : ℝ) = Binary.divNearest num den := by
  have hden : (0 : ℝ) < den := Nat.cast_pos.mpr h
  have hfloor : ⌊(num / den : ℝ)⌋₊ = num / den := Nat.floor_div_eq_div num den
  have hrest : 2 * ((num / den : ℝ) - (num / den : ℕ)) = (2 * (num % den) : ℕ) / den := by
    have hdiv : (num : ℝ) = den * (num / den : ℕ) + (num % den : ℕ) := by
      exact_mod_cast (Nat.div_add_mod num den).symm
    rw [Nat.cast_mul, Nat.cast_two]
    field_simp
    linarith
  have hless : (num / den : ℝ) - (num / den : ℕ) < (num / den : ℕ) + 1 - num / den ↔
      2 * (num % den) < den := by
    rw [← @Nat.cast_lt ℝ, ← div_lt_one hden, ← hrest]
    constructor <;> intro h <;> linarith
  have hhalf : (num / den : ℝ) - (num / den : ℕ) = (num / den : ℕ) + 1 - num / den ↔
      2 * (num % den) = den := by
    rw [← @Nat.cast_inj ℝ, ← div_eq_one_iff_eq hden.ne', ← hrest]
    constructor <;> intro h <;> linarith
  simp only [nearest, Binary.divNearest, hfloor, hless, hhalf, Nat.even_iff, Bool.or_eq_true,
    Bool.and_eq_true, decide_eq_true_eq, beq_iff_eq]
  split_ifs <;> omega

/-- What a finite double stands for. -/
noncomputable def valueOf (negative : Bool) (m : ℕ) (e : ℤ) : ℝ :=
  (if negative then -1 else 1) * m * ((2 : ℕ) : ℝ) ^ e

/-- **The text of a double is that of its value**, but for the sign of zero. -/
theorem toFixed_valueOf (places : ℕ) {negative : Bool} {m : ℕ} (h : negative → m ≠ 0) (e : ℤ) :
    ToFixed.toFixed places (valueOf negative m e) =
      String.ofList (fixedChars places (.finite negative m e)) := by
  have hpow : (0 : ℝ) < 2 ^ e := zpow_pos two_pos e
  have hsign : decide (valueOf negative m e < 0) = negative := by
    cases negative with
    | false => simpa [valueOf] using mul_nonneg (Nat.cast_nonneg m) hpow.le
    | true => simpa [valueOf] using mul_pos (Nat.cast_pos.mpr (Nat.pos_of_ne_zero (h rfl))) hpow
  have habs : |valueOf negative m e| * (pow10 places : ℕ) =
      (m * pow10 places * pow2 e.toNat : ℕ) / (pow2 (-e).toNat : ℕ) := by
    have hsplit : (2 : ℝ) ^ e * 2 ^ (-e).toNat = 2 ^ e.toNat := by
      rw [← zpow_natCast, ← zpow_natCast, ← zpow_add₀ two_ne_zero]
      congr 1
      omega
    have hunsigned : |valueOf negative m e| = m * 2 ^ e := by
      cases negative <;> simp [valueOf, abs_mul, abs_of_pos hpow]
    have hcast : ((pow2 (-e).toNat : ℕ) : ℝ) ≠ 0 := by simp [pow2]
    rw [hunsigned, eq_div_iff hcast]
    simp only [pow2, Nat.pow_eq, Nat.cast_mul, Nat.cast_pow, Nat.cast_ofNat, ← hsplit]
    ring
  have hden : 0 < pow2 (-e).toNat := Nat.pow_pos two_pos
  have hnearest := nearest_div (m * pow10 places * pow2 e.toNat) hden
  rw [← habs] at hnearest
  simp only [ToFixed.toFixed, fixedChars, scaledNearest, ← hnearest, hsign]

end Decimal

/-! ### Layouts -/

namespace Layout

open Graphviz

/-- How an engine places a graph before the drawing is moved to its margins; `input` is what dot is
given, if it is run. -/
inductive Placing (g : Graph ℝ) (dot? : Option (String → DotRun)) :
    Option String → Graph ℝ → Prop
  | layered {arcs : List (Arc g.nodes.length)} (h : g.arcs = .ok arcs) :
    Placing g dot? none (Layered.placeAlong g arcs)
  | drawn {dot : String → DotRun} {stdout stderr : String} {placed : Placement ℝ}
    (hdot : dot? = some dot) (hran : dot (source g) = .finished 0 stdout stderr)
    (h : placement g stdout = .ok placed) :
    Placing g dot? (some (source g)) (setRoutes (g.centred placed.centers) placed.routes)

theorem Placing.cleared {g placed : Graph ℝ} {dot? : Option (String → DotRun)}
    {input : Option String} (h : Placing g dot? input placed) : placed.cleared = g.cleared := by
  cases h with
  | layered h => exact Layered.cleared_placeAlong g _
  | drawn _ _ h =>
    obtain ⟨-, hroutes, -⟩ := placement_covers h
    exact (cleared_setRoutes (g := g.centred _) hroutes).trans (g.cleared_centred _)

/-- A layout that succeeds frames the placement of an engine. -/
theorem exists_placing {g g' : Graph ℝ} {engine : String} {dot? : Option (String → DotRun)}
    {input : Option String} {size : ℝ × ℝ} (h : layout engine dot? g = ⟨g', input, .ok size⟩) :
    ∃ placed, Placing g dot? input placed ∧ Layered.frame placed = (g', size) ∧
      Fills g g' size := by
  have hs := sized_of_layout h
  rcases layout_cases engine dot? g with ⟨_, he⟩ | he | ⟨dot, hdot, he⟩
  · cases he.symm.trans h
  · obtain ⟨rfl, hl⟩ := builtin_eq_ok (he.symm.trans h)
    obtain ⟨arcs, ha, hframe⟩ := Layered.layout_eq_ok hl
    exact ⟨_, .layered ha, hframe, fills_layered (Graph.joined_of_arcs ha) hs hl⟩
  · rcases viaDot_cases g dot with
      ⟨_, hv⟩ | ⟨_, _, placed, hran, hplaced, hv | ⟨_, _, _, _, -, -, -, hv⟩⟩
    · cases (he.trans hv).symm.trans h
    · cases (he.trans hv).symm.trans h
      exact ⟨_, .drawn hdot hran hplaced, rfl, fills_drawn hs hplaced⟩
    · cases (he.trans hv).symm.trans h

theorem Fills.exists_box {g g' : Graph ℝ} {size : ℝ × ℝ} (h : Fills g g' size) {u : Node ℝ}
    (hu : u ∈ g'.nodes) : ∃ b, u.box? = some b := by
  obtain ⟨hsized, hplaced, -⟩ := Graph.geometryFault?_eq_none.mp h.complete
  obtain ⟨size, hsize⟩ := Node.exists_size (hsized u hu)
  obtain ⟨c, hc⟩ := Node.exists_center (hplaced u hu)
  exact ⟨_, Node.box?_eq_some.mpr ⟨_, _, _, hsize, hc, rfl⟩⟩

end Layout

open Layout

/-- **A layout reaches its margins.**  Whatever engine lays a graph with nodes out, the drawing is
the placement of that engine moved by one vector; every node has a box, and the box sides and route
points together have the margin as their least coordinate and the margin on the other side of the
size as their greatest one, horizontally and vertically.  The builtin engine lays every sized graph
out whose edges join its nodes. -/
theorem layout_framed {g : Graph ℝ} (hne : g.nodes ≠ []) (engine : String)
    (dot? : Option (String → DotRun)) :
    (∀ g' input size, layout engine dot? g = ⟨g', input, .ok size⟩ →
      ∃ placed, Placing g dot? input placed ∧ Layered.Framed placed g' size ∧
        placed.cleared = g.cleared ∧ ∀ u ∈ g'.nodes, ∃ b, u.box? = some b) ∧
    (g.Joined → g.sizeFault? = none →
      ∃ g' size, layout Engine.builtin.name dot? g = ⟨g', none, .ok size⟩) := by
  refine ⟨fun g' input size hl => ?_, fun hj hs => ?_⟩
  · obtain ⟨placed, hplacing, hframe, hfills⟩ := exists_placing hl
    refine ⟨placed, hplacing, ?_, hplacing.cleared, fun u hu => hfills.exists_box hu⟩
    have hplaced : placed.nodes ≠ [] := fun hnil => hne (by
      have hids := Graph.ids_of_cleared hplacing.cleared
      simpa [Graph.ids, hnil] using hids.symm)
    obtain ⟨u, hu⟩ := List.exists_mem_of_ne_nil _ hplaced
    -- a node that has a box in the end had one before it was moved
    obtain ⟨v, hv⟩ := Layered.shift_mem_frame hu
    rw [hframe] at hv
    obtain ⟨b, hb⟩ := hfills.exists_box hv
    rw [Node.box?_shift, Option.map_eq_some_iff] at hb
    obtain ⟨b, hb, -⟩ := hb
    have hframed := Layered.framed_frame hu hb
    rwa [hframe] at hframed
  · obtain ⟨g', size, hl, -⟩ := layout_builtin hj hs dot?
    exact ⟨g', size, hl⟩

/-- A cycle of three nodes with a loop, from bottom to top. -/
noncomputable def looped : Graph ℝ :=
  Layered.trio .bottomTop [⟨"a", "b", []⟩, ⟨"b", "c", []⟩, ⟨"c", "a", []⟩, ⟨"b", "b", []⟩]

/-- The cycle with a loop is laid out, and reaches its margins of ten. -/
theorem layout_framed_looped : looped.nodes ≠ [] ∧ ∃ g' size,
    layout Engine.builtin.name none looped = ⟨g', none, .ok size⟩ ∧
    ∃ placed, Placing looped none none placed ∧ Layered.Framed placed g' size ∧
      IsLeast g'.marksX 10 ∧ IsGreatest g'.marksX (size.1 - 10) ∧ IsLeast g'.marksY 10 ∧
      IsGreatest g'.marksY (size.2 - 10) := by
  have hne : looped.nodes ≠ [] := by simp [looped, Layered.trio]
  have hj : looped.Joined := by simp [Graph.Joined, Graph.ids, looped, Layered.trio]
  obtain ⟨hframed, hexists⟩ := layout_framed hne Engine.builtin.name none
  obtain ⟨g', size, hl⟩ := hexists hj rfl
  obtain ⟨placed, hplacing, h, hcleared, -⟩ := hframed g' none size hl
  have hx : placed.marginX = 10 := congrArg Graph.marginX hcleared
  have hy : placed.marginY = 10 := congrArg Graph.marginY hcleared
  exact ⟨hne, g', size, hl, placed, hplacing, h, hx ▸ h.left, hx ▸ h.right, hy ▸ h.top,
    hy ▸ h.bottom⟩

end Scrawl
