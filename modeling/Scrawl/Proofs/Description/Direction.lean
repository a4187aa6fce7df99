import Mathlib
import Scrawl.Proofs.Description.Drafts

/-!
# Scrawl.Proofs.Description.Direction — the direction that a description sets

Only the settings of the graph set its direction, and of these only the value of `rankdir`.

* `lower_of_isLower`: small letters are their own lower case.
* `setAttribute_direction`, `direction_setAll`, `direction_of_settings`: what settings do to the
  direction.
* `spacing_of_act`, `direction_of_actFrom`: statements that are not settings of the graph keep it,
  and the gaps.
-/

namespace Scrawl

/-! ### Small letters -/

namespace Text

/-- No capital is a small letter. -/
theorem find?_lowerRuns {c : Char} (h : c.isLower) : lowerRuns.find? (·.holds c.toNat) = none := by
  have hruns : lowerRuns.all (fun r => decide (r.last < 97) || decide (122 < r.first)) = true := by
    decide +kernel
  have hrange : 97 ≤ c.toNat ∧ c.toNat ≤ 122 := by
    simpa [Char.isLower, UInt32.le_iff_toNat_le] using h
  rw [Array.find?_eq_none]
  intro r hr hholds
  have hapart := Array.all_eq_true_iff_forall_mem.mp hruns r hr
  simp only [CaseRun.holds, Bool.and_eq_true, Bool.or_eq_true, decide_eq_true_eq] at hapart hholds
  omega

theorem lowerChar_of_isLower {c : Char} (h : c.isLower) : lowerChar c = c := by
  unfold lowerChar
  simp only [find?_lowerRuns h]

/-- Small letters are their own lower case. -/
theorem lower_of_isLower {s : String} (h : s.toList.all Char.isLower) : lower s = s := by
  have hfrom : ∀ cs before, (∀ c ∈ cs, Char.isLower c) → lowerFrom before cs = cs := by
    intro cs
    induction cs with
    | nil => exact fun _ _ => rfl
    | cons c cs ih =>
      intro before hcs
      obtain ⟨hc, hcs⟩ := List.forall_mem_cons.mp hcs
      have hsigma : c ≠ '\u03A3' := by rintro rfl; cases hc
      have hdotted : c ≠ '\u0130' := by rintro rfl; cases hc
      rw [lowerFrom, ih _ hcs, lowerChar_of_isLower hc]
      simp [hsigma, hdotted]
  rw [lower, hfrom _ _ (List.all_eq_true.mp h), String.ofList_toList]

end Text

namespace Description

variable {g g' : Graph Float}

/-! ### Settings -/

theorem direction_setAttribute {key value : String} (hkey : Text.lower key ≠ "rankdir")
    (h : setAttribute g key value = .ok g') : g'.direction = g.direction := by
  unfold setAttribute at h
  split at h
  · next hdir => exact absurd hdir hkey
  · cases hgap : readGap? value <;> rw [hgap] at h <;> cases h
    rfl
  · cases hgap : readGap? value <;> rw [hgap] at h <;> cases h
    rfl
  · cases h
    rfl

theorem direction_setAll {attributes : Attributes}
    (hkeys : ∀ a ∈ attributes, Text.lower a.1 ≠ "rankdir")
    (h : attributes.foldlM (fun g (key, value) => setAttribute g key value) g = .ok g') :
    g'.direction = g.direction :=
  setAll_preserves (P := fun g' => g'.direction = g.direction)
    (fun ha hg hset => (direction_setAttribute (hkeys _ ha) hset).trans hg) rfl h

/-- The direction is set by the name of one of the four. -/
theorem setAttribute_direction {d : Direction} (hd : d ∈ Direction.all) :
    setAttribute g "rankdir" d.name = .ok { g with direction := d } := by
  have hlower : Text.lower "rankdir" = "rankdir" := Text.lower_of_isLower (by decide)
  have hname : Direction.ofName? (Text.upperAscii d.name) = some d := by
    fin_cases hd <;> decide +kernel
  unfold setAttribute
  simp only [hlower, hname]

/-- Settings that give each name once, the direction first, set it. -/
theorem direction_of_settings {d d' : Draft} {direction : Direction} {attributes : Attributes}
    {place : Token} (hd : direction ∈ Direction.all)
    (hkeys : ∀ a ∈ attributes, Text.lower a.1 ≠ "rankdir")
    (hnodup : (("rankdir", direction.name) :: attributes).map (·.1) |>.Nodup)
    (h : d.act (.graphAttributes (("rankdir", direction.name) :: attributes) place) = .ok d') :
    d'.graph.direction = direction := by
  simp only [Draft.act, lastValues_of_nodup hnodup, List.foldlM_cons] at h
  split at h <;> cases h
  next g hg =>
  obtain ⟨g₁, h₁, h₂⟩ := ok_of_bind_ok hg
  rw [setAttribute_direction hd] at h₁
  cases h₁
  exact direction_setAll hkeys h₂

/-! ### Statements -/

/-- Whether the statement sets attributes of the graph. -/
def Statement.SetsGraph : Statement → Prop
  | .graphAttributes _ _ => True
  | _ => False

theorem Statement.admissible_of_not_setsGraph {s : Statement} (h : ¬ s.SetsGraph) :
    s.Admissible := by
  cases s with
  | graphAttributes attributes place => exact absurd trivial h
  | nodeDefaults | edgeDefaults | chain | node => trivial

theorem spacing_of_act {d d' : Draft} {s : Statement} (hs : ¬ s.SetsGraph)
    (h : d.act s = .ok d') : d'.graph.spacing = d.graph.spacing := by
  cases s with
  | graphAttributes attributes place => exact absurd trivial hs
  | nodeDefaults attributes | edgeDefaults attributes =>
    cases h
    rfl
  | chain first rest =>
    have hchain : (addChain d.graph first rest).spacing = d.graph.spacing :=
      spacing_addChain first rest
    cases h
    cases d.defaultLabel with
    | none => exact hchain
    | some label => exact (spacing_relabel _ label).trans hchain
  | node v attributes =>
    cases h
    exact Graph.spacing_addNode _ v _

/-- **Statements that are not settings of the graph keep its direction.** -/
theorem direction_of_actFrom {finish : Position} {statements : List Statement} {d d' : Draft}
    (hs : ∀ s ∈ statements, ¬ s.SetsGraph) (h : actFrom finish d statements = .ok d') :
    d'.graph.direction = d.graph.direction :=
  actFrom_preserves (P := fun d' => d'.graph.direction = d.graph.direction)
    (fun hmem hd hact => (congrArg (·.1) (spacing_of_act (hs _ hmem) hact)).trans hd) rfl h

end Description

end Scrawl
