import Mathlib
import Scrawl.Scalar

/-!
# Scrawl.Proofs.Exact — the reals as scalars

Geometry over the reals is geometry without rounding: a square is a product, the length of a vector
is its Euclidean norm, and no number is out of range.  The order operations of `Scalar` are those of
the reals (`max_eq`, `min_eq`, `isGreatest_largest`, `isLeast_least`, `le_largestOrZero`).
-/

namespace Scrawl

noncomputable instance : Scalar ℝ where
  decideLT := Real.decidableLT
  decideLE := Real.decidableLE
  ofInt := Int.cast
  abs a := |a|
  square a := a * a
  sqrt := Real.sqrt
  hypot a b := Real.sqrt (a * a + b * b)
  saturate a := a
  squareFault? _ := none
  writeFault? _ := none

namespace Scalar

theorem max_eq (a b : ℝ) : Scalar.max a b = Max.max a b := by
  unfold Scalar.max
  rw [max_def]
  split_ifs <;> linarith

theorem min_eq (a b : ℝ) : Scalar.min a b = Min.min a b := by
  unfold Scalar.min
  rw [min_def]
  split_ifs <;> linarith

theorem least_le (a : ℝ) (rest : List ℝ) : ∀ b ∈ a :: rest, least a rest ≤ b := by
  induction rest generalizing a with
  | nil => simp [least]
  | cons c rest ih =>
    have hstep : least a (c :: rest) = least (Min.min a c) rest := by
      rw [← min_eq]
      rfl
    intro b hb
    rw [hstep]
    have hm := ih (Min.min a c) _ List.mem_cons_self
    rcases List.mem_cons.mp hb with rfl | hb
    · exact hm.trans (min_le_left _ _)
    · rcases List.mem_cons.mp hb with rfl | hb
      · exact hm.trans (min_le_right _ _)
      · exact ih _ b (List.mem_cons_of_mem _ hb)

theorem le_largest (a : ℝ) (rest : List ℝ) : ∀ b ∈ a :: rest, b ≤ largest a rest := by
  induction rest generalizing a with
  | nil => simp [largest]
  | cons c rest ih =>
    have hstep : largest a (c :: rest) = largest (Max.max a c) rest := by
      rw [← max_eq]
      rfl
    intro b hb
    rw [hstep]
    have hm := ih (Max.max a c) _ List.mem_cons_self
    rcases List.mem_cons.mp hb with rfl | hb
    · exact (le_max_left _ _).trans hm
    · rcases List.mem_cons.mp hb with rfl | hb
      · exact (le_max_right _ _).trans hm
      · exact ih _ b (List.mem_cons_of_mem _ hb)

/-- What chooses one of two numbers at each step ends with one of the numbers. -/
theorem foldl_mem {f : ℝ → ℝ → ℝ} (hf : ∀ a b, f a b = a ∨ f a b = b) (a : ℝ) (rest : List ℝ) :
    rest.foldl f a ∈ a :: rest := by
  induction rest generalizing a with
  | nil => exact List.mem_singleton_self a
  | cons c rest ih =>
    rcases List.mem_cons.mp (ih (f a c)) with h | h
    · rw [List.foldl_cons, h]
      rcases hf a c with hac | hac <;> simp [hac]
    · exact List.mem_cons_of_mem _ (List.mem_cons_of_mem _ h)

theorem isLeast_least (a : ℝ) (rest : List ℝ) : IsLeast {b | b ∈ a :: rest} (least a rest) :=
  ⟨foldl_mem (fun a b => by rw [min_eq]; exact min_choice a b) a rest, least_le a rest⟩

theorem isGreatest_largest (a : ℝ) (rest : List ℝ) :
    IsGreatest {b | b ∈ a :: rest} (largest a rest) :=
  ⟨foldl_mem (fun a b => by rw [max_eq]; exact max_choice a b) a rest, le_largest a rest⟩

theorem le_largestOrZero {xs : List ℝ} {b : ℝ} (hb : b ∈ xs) : b ≤ largestOrZero xs := by
  cases xs with
  | nil => exact absurd hb List.not_mem_nil
  | cons a rest => exact le_largest a rest b hb

theorem largestOrZero_nonneg {xs : List ℝ} (h : ∀ b ∈ xs, 0 ≤ b) : 0 ≤ largestOrZero xs := by
  cases xs with
  | nil => simp only [largestOrZero]; norm_num
  | cons a rest => exact (h a List.mem_cons_self).trans (le_largest a rest a List.mem_cons_self)

end Scalar

end Scrawl
