import Mathlib
import Scrawl.Font.Size
import Scrawl.Proofs.Decimal.Arithmetic
import Scrawl.Proofs.Exact
import Scrawl.Proofs.Label.Sizes
import Scrawl.Proofs.Text.Pieces

/-!
# Scrawl.Proofs.Label.Growth — a longer label is no smaller

Text at the end of a label goes on in its last line and may add lines.  A line that goes on reaches
at least as far in each direction (`lineBox_mono`).  What hangs below the last line, half a
size at most, has room in the line that follows, so a new line never makes a label less high
(`depth_le`).

* `text_plain`: the plain face measures every label that can be drawn.
* `text_grows`: sizes of labels with the plain face, over the reals.
-/

namespace Scrawl.Label

open Text

variable {size : ℝ}

/-! ### Lines -/

section Lines

variable {cs ds : List Char}

theorem sum_eighths_append (cs ds : List Char) : ((cs ++ ds).map eighths).foldl (· + ·) 0 =
    (cs.map eighths).foldl (· + ·) 0 + (ds.map eighths).foldl (· + ·) 0 := by
  rw [← List.sum_eq_foldl, ← List.sum_eq_foldl, ← List.sum_eq_foldl, List.map_append,
    List.sum_append]

theorem widthEighths_le (hsize : 0 ≤ size) (cs ds : List Char) :
    widthEighths size cs ≤ widthEighths size (cs ++ ds) := by
  unfold widthEighths
  rw [sum_eighths_append]
  refine mul_le_mul_of_nonneg_right ?_ hsize
  simp only [Scalar.ofNat, Scalar.ofInt]
  push_cast
  exact le_add_of_nonneg_right (Nat.cast_nonneg _)

/-- From the origin, the second box reaches at least as far as the first in each direction. -/
structure Reaches (b b' : Box ℝ) : Prop where
  left : min b'.left 0 ≤ min b.left 0
  top : min b'.top 0 ≤ min b.top 0
  right : b.right ≤ b'.right
  bottom : b.bottom ≤ b'.bottom

/-- The box of a line ends behind the origin, and hangs down by half a size at most. -/
theorem lineBox_bounds (hsize : 0 ≤ size) (cs : List Char) : 0 ≤ (lineBox size cs).right ∧
    0 ≤ (lineBox size cs).bottom ∧ (lineBox size cs).bottom ≤ 3 / 2 * size := by
  have hwidth : 0 ≤ widthEighths size cs := by
    simpa [widthEighths, Scalar.ofNat, Scalar.ofInt] using widthEighths_le hsize [] cs
  cases cs with
  | nil =>
    norm_num [lineBox]
    positivity
  | cons c cs =>
    refine ⟨?_, ?_, ?_⟩
    · exact div_nonneg hwidth (by norm_num)
    · simp only [lineBox]
      split_ifs <;> positivity
    · simp only [lineBox]
      split_ifs
      · norm_num
      · linarith

/-- **A line that goes on reaches at least as far.** -/
theorem lineBox_mono (hsize : 0 ≤ size) (h : cs <+: ds) :
    Reaches (lineBox size cs) (lineBox size ds) := by
  obtain ⟨more, rfl⟩ := h
  obtain ⟨hright, hbottom, -⟩ := lineBox_bounds hsize (cs ++ more)
  cases cs with
  | nil =>
    refine ⟨?_, ?_, ?_, ?_⟩
    · exact le_of_le_of_eq (min_le_right _ _) (by norm_num [lineBox])
    · exact le_of_le_of_eq (min_le_right _ _) (by norm_num [lineBox])
    · exact le_of_eq_of_le (by norm_num [lineBox]) hright
    · exact le_of_eq_of_le (by norm_num [lineBox]) hbottom
  | cons c cs =>
    have hwidth := widthEighths_le hsize (c :: cs) more
    have hany : ∀ p : Char → Bool, (c :: cs).any p → (c :: (cs ++ more)).any p := by
      intro p hp
      rw [← List.cons_append, List.any_append, hp, Bool.true_or]
    refine ⟨le_rfl, ?_, div_le_div_of_nonneg_right hwidth (by norm_num), ?_⟩
    · simp only [lineBox, List.cons_append]
      by_cases h : (c :: cs).any fun c => c == '|' || c == '\u00C5'
      · rw [if_pos h, if_pos (hany _ h)]
      · rw [if_neg h]
        split_ifs <;> norm_num
    · simp only [lineBox, List.cons_append]
      by_cases h : (c :: cs).any fun c => "gjpqy|".toList.contains c
      · rw [if_pos h, if_pos (hany _ h)]
      · rw [if_neg h]
        split_ifs
        · norm_num
          linarith
        · exact le_rfl

end Lines

/-! ### Blocks of lines -/

section Blocks

variable {spacing : ℝ} {lines lines' : List (List Char)}

/-- The box of lines. -/
noncomputable def linesBox (size spacing : ℝ) (lines : List (List Char)) : Box ℝ :=
  blockBox size spacing (lines.map (lineBox size))

theorem linesBox_cons (size spacing : ℝ) (first : List Char) (rest : List (List Char)) :
    linesBox size spacing (first :: rest) =
      { left := Scalar.least (lineBox size first).left (rest.map fun cs => (lineBox size cs).left)
        top := (lineBox size first).top
        right :=
          Scalar.largest (lineBox size first).right (rest.map fun cs => (lineBox size cs).right)
        bottom := rest.length * (5 / 4 * size + spacing) +
          (lineBox size ((first :: rest).getLastD [])).bottom } := by
  have hlast : ((first :: rest).map (lineBox size)).getLastD (lineBox size first) =
      lineBox size ((first :: rest).getLastD []) := by
    simp only [List.getLastD_eq_getLast?, List.getLast?_map]
    cases h : (first :: rest).getLast? with
    | none => cases List.getLast?_eq_none_iff.mp h
    | some last => rfl
  have hspace : (1.25 : ℝ) = 5 / 4 := by norm_num
  rw [← hlast, ← hspace]
  simp [linesBox, blockBox, Function.comp_def, Scalar.ofNat, Scalar.ofInt]

theorem isLeast_left (spacing : ℝ) (h : lines ≠ []) :
    IsLeast {a | a ∈ lines.map fun cs => (lineBox size cs).left}
      (linesBox size spacing lines).left := by
  obtain ⟨first, rest, rfl⟩ := List.exists_cons_of_ne_nil h
  rw [linesBox_cons]
  exact Scalar.isLeast_least _ _

theorem isGreatest_right (spacing : ℝ) (h : lines ≠ []) :
    IsGreatest {a | a ∈ lines.map fun cs => (lineBox size cs).right}
      (linesBox size spacing lines).right := by
  obtain ⟨first, rest, rfl⟩ := List.exists_cons_of_ne_nil h
  rw [linesBox_cons]
  exact Scalar.isGreatest_largest _ _

/-- Lines among which each of the first goes on are no less wide. -/
theorem width_le (hsize : 0 ≤ size) (hne : lines ≠ []) (hne' : lines' ≠ [])
    (h : ∀ cs ∈ lines, ∃ ds ∈ lines', cs <+: ds) :
    (linesBox size spacing lines).right - min (linesBox size spacing lines).left 0 ≤
      (linesBox size spacing lines').right - min (linesBox size spacing lines').left 0 := by
  refine sub_le_sub ?_ (le_min ?_ (min_le_right _ _))
  · obtain ⟨cs, hcs, heq⟩ := List.mem_map.mp (isGreatest_right spacing hne).1
    obtain ⟨ds, hds, hprefix⟩ := h cs hcs
    rw [← heq]
    exact (lineBox_mono hsize hprefix).right.trans
      ((isGreatest_right spacing hne').2 (List.mem_map.mpr ⟨ds, hds, rfl⟩))
  · obtain ⟨cs, hcs, heq⟩ := List.mem_map.mp (isLeast_left spacing hne).1
    obtain ⟨ds, hds, hprefix⟩ := h cs hcs
    have hstart : min (linesBox size spacing lines').left 0 ≤ min (lineBox size ds).left 0 :=
      min_le_min_right 0 ((isLeast_left spacing hne').2 (List.mem_map.mpr ⟨ds, hds, rfl⟩))
    rw [← heq]
    exact hstart.trans ((lineBox_mono hsize hprefix).left.trans (min_le_left _ _))

/-- How far down lines reach, the height of all lines being the least. -/
noncomputable def depth (size : ℝ) (lines : List (List Char)) : ℝ :=
  max (linesBox size 4 lines).bottom (lines.length * (5 / 4 * size) + 4 * (lines.length - 1))

/-- The lines but the last one take their height and the space behind them. -/
theorem depth_eq (h : lines ≠ []) : depth size lines =
    (lines.length - 1) * (5 / 4 * size + 4) +
      max (lineBox size (lines.getLastD [])).bottom (5 / 4 * size) := by
  obtain ⟨first, rest, rfl⟩ := List.exists_cons_of_ne_nil h
  rw [depth, linesBox_cons, List.length_cons, ← max_add_add_left]
  push_cast
  congr 1 <;> ring

/-- The second lines are the first ones with more text at the end. -/
inductive GoesOn : List (List Char) → List (List Char) → Prop
  | mk (init : List (List Char)) (last first : List Char) (rest : List (List Char)) :
      GoesOn (init ++ [last]) (init ++ (last ++ first) :: rest)

theorem GoesOn.exists_prefix (h : GoesOn lines lines') :
    ∀ cs ∈ lines, ∃ ds ∈ lines', cs <+: ds := by
  obtain ⟨init, last, first, rest⟩ := h
  intro cs hcs
  rcases List.mem_append.mp hcs with hcs | hcs
  · exact ⟨cs, List.mem_append_left _ hcs, List.prefix_refl cs⟩
  · rw [List.mem_singleton.mp hcs]
    exact ⟨last ++ first, by simp, List.prefix_append last first⟩

theorem GoesOn.head_prefix (h : GoesOn lines lines') : lines.headD [] <+: lines'.headD [] := by
  obtain ⟨init, last, first, rest⟩ := h
  cases init with
  | nil => exact List.prefix_append last first
  | cons cs init => exact List.prefix_refl cs

/-- **Lines that go on reach no less far down.** -/
theorem GoesOn.depth_le (hsize : 0 ≤ size) (h : GoesOn lines lines') :
    depth size lines ≤ depth size lines' := by
  obtain ⟨init, last, first, rest⟩ := h
  rw [depth_eq (by simp), depth_eq (by simp)]
  cases rest with
  | nil =>
    have hbottom := (lineBox_mono hsize (List.prefix_append last first)).bottom
    simp only [List.getLastD_concat, List.length_append, List.length_singleton]
    gcongr
  | cons next rest =>
    -- what hangs below the last line has room in the next one
    obtain ⟨-, -, hhang⟩ := lineBox_bounds hsize last
    have hfirst : max (lineBox size last).bottom (5 / 4 * size) ≤ 3 / 2 * size :=
      max_le hhang (by linarith)
    have hrest : 0 ≤ (rest.length : ℝ) * (5 / 4 * size + 4) := by positivity
    simp only [List.getLastD_concat, List.length_append, List.length_cons, List.length_nil]
    push_cast
    refine le_trans ?_ (add_le_add_right (le_max_right _ _) _)
    linarith

end Blocks

/-! ### Labels -/

section Labels

theorem lineReply_eq {cs : List Char} (h : '\x07' ∉ cs) :
    lineReply size cs = .box (lineBox size cs) := by
  rw [lineReply, if_neg (by simpa using h)]
  rfl

theorem lineReplies_eq {lines : List (List Char)} (h : ∀ cs ∈ lines, '\x07' ∉ cs) :
    lineReplies size lines = .ok (lines.map (lineBox size)) := by
  induction lines with
  | nil => rfl
  | cons cs lines ih =>
    obtain ⟨hcs, hlines⟩ := List.forall_mem_cons.mp h
    rw [lineReplies, lineReply_eq hcs, ih hlines]
    rfl

/-- The lines of a label. -/
def linesOf (label : String) : List (List Char) := splitOnChar '\n' label.toList

theorem linesOf_ne_nil (label : String) : linesOf label ≠ [] := splitOnChar_ne_nil _ _

theorem length_linesOf (label : String) :
    (linesOf label).length = label.toList.count '\n' + 1 := length_splitOnChar _ _

theorem goesOn_append (l m : String) : GoesOn (linesOf l) (linesOf (l ++ m)) := by
  obtain ⟨init, last, first, rest, hl, -, happend⟩ := splitOnChar_append '\n' l.toList m.toList
  rw [linesOf, linesOf, String.toList_append, hl, happend]
  exact .mk init last first rest

/-- **A label that can be drawn takes the box of its lines**, with line breaks and without. -/
theorem reply_plainFace {label : String} (h : '\x07' ∉ label.toList) :
    (plainFace size).reply (requestOf label) = .box (linesBox size 4 (linesOf label)) := by
  have hspacing : (lineSpacing : ℝ) = 4 := by norm_num [lineSpacing]
  rw [requestOf, hspacing]
  split_ifs with hbreak
  · have hlines : ∀ cs ∈ linesOf label, '\x07' ∉ cs := fun cs hcs hbell =>
      h (mem_splitOnChar.mp ⟨cs, hcs, hbell⟩).1
    have hreplies : lineReplies size (linesOf label) = _ := lineReplies_eq hlines
    rw [linesOf] at hreplies
    simp only [plainFace, hreplies]
    rfl
  · have hone : linesOf label = [label.toList] := splitOnChar_of_not_mem (by simpa using hbreak)
    have hbox : linesBox size 4 [label.toList] = lineBox size label.toList := by
      rw [linesBox_cons]
      simp [Scalar.least, Scalar.largest]
    rw [hone, hbox]
    exact lineReply_eq h

/-- The measurer with the plain face at a whole size. -/
noncomputable def plainMeasurer (size : ℤ) (padding : ℝ) : Measurer ℝ :=
  ⟨.ok (plainFace (Scalar.ofInt size)), padding⟩

variable {whole : ℤ} {padding : ℝ} {label : String}

/-- **The size of a label.** -/
theorem text_plain (h : '\x07' ∉ label.toList) : ((plainMeasurer whole padding).text label).2 =
    .ok ((linesBox whole 4 (linesOf label)).right - min (linesBox whole 4 (linesOf label)).left 0,
      depth whole (linesOf label) - min (linesBox whole 4 (linesOf label)).top 0) := by
  have hreply : (plainFace (Scalar.ofInt whole)).reply (requestOf label) = _ := reply_plainFace h
  have hlines : linesHeight (plainFace (Scalar.ofInt whole : ℝ)) label =
      (linesOf label).length * (5 / 4 * whole) + 4 * ((linesOf label).length - 1) := by
    simp only [linesHeight, lineCount, plainFace, lineSpacing, Scalar.ofNat, Scalar.ofInt,
      length_linesOf]
    push_cast
    norm_num
    ring
  simp only [Measurer.text, plainMeasurer, hreply, footprint, Scalar.min_eq, Scalar.max_eq, hlines]
  norm_num [depth, Scalar.ofInt]

/-- A label that goes on is no less wide and no less high. -/
theorem text_le (hwhole : 0 ≤ whole) {l m : String} (hl : '\x07' ∉ l.toList)
    (hm : '\x07' ∉ m.toList) : ∃ w h w' h', ((plainMeasurer whole padding).text l).2 = .ok (w, h) ∧
      ((plainMeasurer whole padding).text (l ++ m)).2 = .ok (w', h') ∧ w ≤ w' ∧ h ≤ h' := by
  have hsize : (0 : ℝ) ≤ whole := Int.cast_nonneg hwhole
  have hgoes := goesOn_append l m
  have happend : '\x07' ∉ (l ++ m).toList := by
    rw [String.toList_append, List.mem_append]
    exact fun h => h.elim hl hm
  refine ⟨_, _, _, _, text_plain hl, text_plain happend,
    width_le hsize (linesOf_ne_nil l) (linesOf_ne_nil _) hgoes.exists_prefix,
    sub_le_sub (hgoes.depth_le hsize) ?_⟩
  have htop := (lineBox_mono hsize hgoes.head_prefix).top
  have hhead : ∀ {lines : List (List Char)}, lines ≠ [] →
      (linesBox (whole : ℝ) 4 lines).top = (lineBox (whole : ℝ) (lines.headD [])).top := by
    intro lines hne
    obtain ⟨first, rest, rfl⟩ := List.exists_cons_of_ne_nil hne
    rw [linesBox_cons]
    rfl
  rwa [hhead (linesOf_ne_nil l), hhead (linesOf_ne_nil _)]

/-- A shape has room for the padding, and for the lines of its label with the spaces between. -/
def HasRoom (size : ℤ) (padding : ℝ) (label : String) (w h : ℝ) : Prop :=
  padding + padding ≤ w ∧
    (label.toList.count '\n' + 1) * (size + size / 4) + 4 * label.toList.count '\n' +
      (padding + padding) ≤ h

variable (padding)

/-- The size of a label with padding has room for it. -/
theorem text_hasRoom (hwhole : 0 ≤ whole) (h : '\x07' ∉ label.toList) :
    ∃ w d, ((plainMeasurer whole padding).text label).2 = .ok (w, d) ∧
      HasRoom whole padding label (w + 2.0 * padding) (d + 2.0 * padding) := by
  have hsize : (0 : ℝ) ≤ whole := Int.cast_nonneg hwhole
  have htwo : (2.0 : ℝ) = 2 := by norm_num
  rw [htwo]
  refine ⟨_, _, text_plain h, ?_, ?_⟩
  · have hgreatest : IsGreatest _ (linesBox (whole : ℝ) 4 (linesOf label)).right :=
      isGreatest_right 4 (linesOf_ne_nil label)
    obtain ⟨cs, -, hright⟩ := List.mem_map.mp hgreatest.1
    have hnonneg := (lineBox_bounds hsize cs).1
    have hleft := min_le_right (linesBox (whole : ℝ) 4 (linesOf label)).left 0
    linarith
  · have hdepth := le_max_right (linesBox (whole : ℝ) 4 (linesOf label)).bottom
      ((linesOf label).length * (5 / 4 * whole) + 4 * ((linesOf label).length - 1))
    have htop := min_le_right (linesBox (whole : ℝ) 4 (linesOf label)).top 0
    rw [← depth, length_linesOf] at hdepth
    push_cast at hdepth
    linarith

theorem node_hasRoom (hwhole : 0 ≤ whole) (h : '\x07' ∉ label.toList) :
    ∃ w d, ((plainMeasurer whole padding).node label).2 = .ok (w, d) ∧
      HasRoom whole padding label w d := by
  obtain ⟨w, d, htext, hroom⟩ := text_hasRoom padding hwhole h
  refine ⟨_, _, ?_, hroom⟩
  change ((plainMeasurer whole padding).text label).2.map _ = _
  rw [htext]
  rfl

/-- Every node is given such a size. -/
theorem nodes_hasRoom (hwhole : 0 ≤ whole) {l : List (Node ℝ)}
    (h : ∀ v ∈ l, '\x07' ∉ v.label.toList) :
    ∃ l', ((plainMeasurer whole padding).nodes l).2 = .ok l' ∧ ∀ v ∈ l',
      ∃ w d, v.width = some w ∧ v.height = some d ∧ HasRoom whole padding v.label w d := by
  induction l with
  | nil => exact ⟨[], rfl, fun v hv => absurd hv List.not_mem_nil⟩
  | cons v l ih =>
    obtain ⟨hv, hl⟩ := List.forall_mem_cons.mp h
    obtain ⟨w, d, htext, hroom⟩ := text_hasRoom padding hwhole hv
    obtain ⟨l', hnodes, hsizes⟩ := ih hl
    rw [nodes_cons, htext, hnodes]
    exact ⟨_, rfl, List.forall_mem_cons.mpr ⟨⟨_, _, rfl, rfl, hroom⟩, hsizes⟩⟩

end Labels

/-- A finite font size is loaded as a whole size. -/
theorem loadSize_of_isFinite {fontSize : Float} (h : fontSize.isFinite) :
    ∃ whole : ℤ, Font.loadSize fontSize = .ok whole ∧ 1 ≤ whole := by
  obtain ⟨below, m, e, hvalue, -⟩ := Decimal.ofFloat_of_isFinite h
  rw [Font.loadSize, hvalue]
  exact ⟨_, rfl, le_max_left _ _⟩

/-- **Longer labels are no smaller.**  The plain face is loaded at a whole size for every finite
font size.  Measured with it over the reals, a label that goes on with any text is at least as wide
and as high as before, if neither part has the character that cannot be drawn.  The shape of a label
is at least as wide as the padding on both sides, and at least as high as this padding and the lines
of the label together, and so is every node of a graph that is measured. -/
theorem text_grows {fontSize : Float} (hfinite : fontSize.isFinite) (padding : ℝ) :
    ∃ whole : ℤ, Font.loadSize fontSize = .ok whole ∧
      (∀ l m : String, '\x07' ∉ l.toList → '\x07' ∉ m.toList → ∃ w h w' h',
        ((plainMeasurer whole padding).text l).2 = .ok (w, h) ∧
          ((plainMeasurer whole padding).text (l ++ m)).2 = .ok (w', h') ∧ w ≤ w' ∧ h ≤ h') ∧
      (∀ label : String, '\x07' ∉ label.toList → ∃ w h,
        ((plainMeasurer whole padding).node label).2 = .ok (w, h) ∧
          HasRoom whole padding label w h) ∧
      ∀ g : Graph ℝ, (∀ v ∈ g.nodes, '\x07' ∉ v.label.toList) → ∃ g',
        ((plainMeasurer whole padding).graph none g).2 = .ok g' ∧ g'.captions = g.captions ∧
          ∀ v ∈ g'.nodes, ∃ w h, v.width = some w ∧ v.height = some h ∧
            HasRoom whole padding v.label w h := by
  obtain ⟨whole, hload, hone⟩ := loadSize_of_isFinite hfinite
  have hwhole : 0 ≤ whole := by omega
  refine ⟨whole, hload, fun l m hl hm => text_le hwhole hl hm,
    fun label hlabel => node_hasRoom padding hwhole hlabel, fun g hg => ?_⟩
  obtain ⟨nodes, hnodes, hsizes⟩ := nodes_hasRoom padding hwhole hg
  have hgraph : ((plainMeasurer whole padding).graph none g).2 = .ok { g with nodes } := by
    change ((plainMeasurer whole padding).nodes g.nodes).2.map _ = _
    rw [hnodes]
    rfl
  exact ⟨_, hgraph, (graph_sized hgraph).1, hsizes⟩

/-- At the usual font size. -/
theorem text_grows_sixteen : (16.0 : Float).isFinite ∧
    ∃ whole : ℤ, Font.loadSize 16.0 = .ok whole ∧ ∃ w h w' h',
      ((plainMeasurer whole 10).text "jag").2 = .ok (w, h) ∧
        ((plainMeasurer whole 10).text ("jag" ++ "ged\n|")).2 = .ok (w', h') ∧ w ≤ w' ∧ h ≤ h' := by
  have hfinite : (16.0 : Float).isFinite := rfl
  obtain ⟨whole, hload, hgrows, -, -⟩ := text_grows hfinite 10
  exact ⟨hfinite, whole, hload, hgrows "jag" "ged\n|" (by decide) (by decide)⟩

end Scrawl.Label
