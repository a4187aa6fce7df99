import Mathlib.Data.List.Nodup
import Mathlib.Logic.Relation
import Scrawl.Layered.Arcs

/-!
# Scrawl.Proofs.Layered.Walk — walks along arcs and lists in which arcs lead forward

`Joins` is the relation of the arcs and `Acyclic` says that it has no closed walk.  `Before` is the
order of two entries of a list.

* `before_cons`, `Before.mono`, `Before.trans`: the order of entries, which more entries do not
  disturb.
* `acyclic_of_forward`: arcs that lead forward in a list without repetitions have no cycle.
-/

namespace Scrawl.Layered

open Relation

variable {n : ℕ}

/-- Some arc leads from `u` to `v`. -/
def Joins (arcs : List (Arc n)) (u v : Fin n) : Prop := ∃ a ∈ arcs, a.source = u ∧ a.target = v

/-- No walk along the arcs comes back to its start. -/
def Acyclic (arcs : List (Arc n)) : Prop := ∀ v, ¬ TransGen (Joins arcs) v v

/-- `u` stands before `v` in the list. -/
def Before {β : Type} (l : List β) (u v : β) : Prop := List.Sublist [u, v] l

/-- Every arc leads from an earlier to a later entry of the list. -/
def Forward (l : List (Fin n)) (arcs : List (Arc n)) : Prop :=
  ∀ a ∈ arcs, Before l a.source a.target

/-! ### The order of entries -/

section Order

variable {β : Type} {l l' : List β} {u v w : β}

theorem before_cons {x : β} : Before (x :: l) u v ↔ Before l u v ∨ (u = x ∧ v ∈ l) := by
  unfold Before
  constructor
  · intro h
    cases h with
    | cons _ h => exact Or.inl h
    | cons_cons _ h => exact Or.inr ⟨rfl, List.singleton_sublist.mp h⟩
  · rintro (h | ⟨rfl, h⟩)
    · exact h.cons _
    · exact (List.singleton_sublist.mpr h).cons_cons _

theorem Before.mono (h : Before l u v) (hl : List.Sublist l l') : Before l' u v :=
  List.Sublist.trans h hl

theorem Before.mem_left (h : Before l u v) : u ∈ l := h.subset (by simp)

theorem Before.mem_right (h : Before l u v) : v ∈ l := h.subset (by simp)

theorem before_append (hu : u ∈ l) (hv : v ∈ l') : Before (l ++ l') u v := by
  have h := (List.singleton_sublist.mpr hu).append (List.singleton_sublist.mpr hv)
  exact h

theorem Before.append_right (h : Before l u v) : Before (l ++ l') u v :=
  h.mono (List.sublist_append_left l l')

theorem not_before_self (hl : l.Nodup) : ¬ Before l u u := List.nodup_iff_sublist.mp hl u

theorem Before.trans (hl : l.Nodup) (huv : Before l u v) (hvw : Before l v w) : Before l u w := by
  induction l with
  | nil => exact absurd huv.mem_left List.not_mem_nil
  | cons x l ih =>
    obtain ⟨hx, hl⟩ := List.nodup_cons.mp hl
    rw [before_cons] at huv hvw ⊢
    rcases huv with huv | ⟨rfl, hv⟩
    · rcases hvw with hvw | ⟨rfl, -⟩
      · exact Or.inl (ih hl huv hvw)
      · exact absurd huv.mem_right hx
    · rcases hvw with hvw | ⟨rfl, -⟩
      · exact Or.inr ⟨rfl, hvw.mem_right⟩
      · exact absurd hv hx

end Order

/-! ### Forward arcs -/

theorem before_of_walk {l : List (Fin n)} {arcs : List (Arc n)} (hl : l.Nodup)
    (h : Forward l arcs) {u v : Fin n} (huv : TransGen (Joins arcs) u v) : Before l u v := by
  induction huv with
  | single hj =>
    obtain ⟨a, ha, rfl, rfl⟩ := hj
    exact h a ha
  | tail _ hj ih =>
    obtain ⟨a, ha, rfl, rfl⟩ := hj
    exact ih.trans hl (h a ha)

/-- Arcs that lead forward in a list without repetitions have no cycle. -/
theorem acyclic_of_forward {l : List (Fin n)} {arcs : List (Arc n)} (hl : l.Nodup)
    (h : Forward l arcs) : Acyclic arcs :=
  fun _ hv => not_before_self hl (before_of_walk hl h hv)

end Scrawl.Layered
