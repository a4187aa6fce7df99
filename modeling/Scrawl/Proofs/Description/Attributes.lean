import Mathlib.Algebra.Order.Field.Power
import Mathlib.Algebra.Order.Field.Rat
import Mathlib.Data.List.Induction
import Mathlib.Data.List.Nodup
import Mathlib.Tactic.Linarith
import Scrawl.Description.Reader

/-!
# Scrawl.Proofs.Description.Attributes — the attributes that are not refused

* `readGap?_isSome`: a gap is a numeral whose double is a finite number that is not negative.
* `setAttribute_ok_iff`: an attribute is refused only if it is a direction or a gap with another
  value.
* `mem_lastValues`: the map of an attribute list holds each name with the last value given to it.
-/

namespace Scrawl

/-- The number that a finite double is. -/
def Decimal.Binary.value? : Decimal.Binary → Option ℚ
  | finite negative mantissa exponent =>
    some ((if negative then -(mantissa : ℚ) else mantissa) * 2 ^ exponent)
  | _ => none

theorem Decimal.Binary.value?_nonneg {negative : Bool} {mantissa : ℕ} {exponent : ℤ} :
    (∃ q, (finite negative mantissa exponent).value? = some q ∧ 0 ≤ q) ↔
      ¬ (negative = true ∧ mantissa ≠ 0) := by
  have hpow : (0 : ℚ) < 2 ^ exponent := by positivity
  simp only [value?, Option.some.injEq, exists_eq_left', mul_nonneg_iff_of_pos_right hpow]
  cases negative <;> simp

namespace Description

/-! ### Gaps -/

/-- Whether the text is a numeral for a finite number that is not negative. -/
def IsGap (value : String) : Prop :=
  ∃ numeral, Decimal.Numeral.read? value = some numeral ∧
    ∃ q, numeral.toBinary.value? = some q ∧ 0 ≤ q

theorem readGap?_isSome {value : String} : (readGap? value).isSome ↔ IsGap value := by
  unfold readGap? IsGap
  cases Decimal.Numeral.read? value with
  | none => simp
  | some numeral =>
    simp only [Option.map_some, Option.some.injEq, exists_eq_left']
    cases numeral.toBinary with
    | nan => simp [Decimal.Binary.value?]
    | infinite negative => simp [Decimal.Binary.value?]
    | finite negative mantissa exponent =>
      rw [Decimal.Binary.value?_nonneg]
      by_cases h : negative = true ∧ mantissa ≠ 0
      · simp [h]
      · simp only [Bool.and_eq_true, bne_iff_ne, h, if_false, Option.isSome_some, not_false_eq_true]

/-! ### One attribute -/

/-- Whether a graph attribute may have the value: a direction is one of the four in any case, and a
gap is a finite number that is not negative. -/
def Admissible (key value : String) : Prop :=
  (Text.lower key = "rankdir" → Text.upperAscii value ∈ ["TB", "BT", "LR", "RL"]) ∧
    (Text.lower key = "nodesep" ∨ Text.lower key = "ranksep" → IsGap value)

theorem ofName?_isSome {s : String} :
    (Direction.ofName? s).isSome ↔ s ∈ ["TB", "BT", "LR", "RL"] := by
  rw [Direction.ofName?, List.find?_isSome]
  simp [Direction.all, Direction.name, @eq_comm _ s]

theorem setAttribute_ok_iff {g : Graph Float} {key value : String} :
    (∃ g', setAttribute g key value = .ok g') ↔ Admissible key value := by
  unfold setAttribute Admissible
  rw [← ofName?_isSome, ← readGap?_isSome]
  split
  · next h =>
    rw [h]
    cases Direction.ofName? (Text.upperAscii value) <;> simp
  · next h =>
    rw [h]
    cases readGap? value <;> simp
  · next h =>
    rw [h]
    cases readGap? value <;> simp
  · simp_all

/-! ### Attribute lists -/

/-- The map with another value for a name. -/
def putValue (done : Attributes) (key value : String) : Attributes :=
  if done.any (·.1 == key) then done.map fun (k, v) => if k == key then (k, value) else (k, v)
  else done ++ [(key, value)]

theorem lastValues_concat (attributes : Attributes) (key value : String) :
    lastValues (attributes ++ [(key, value)]) = putValue (lastValues attributes) key value := by
  unfold lastValues
  rw [List.foldl_append]
  rfl

theorem valueOf?_concat (attributes : Attributes) (key key' value : String) :
    valueOf? key (attributes ++ [(key', value)]) =
      if key = key' then some value else valueOf? key attributes := by
  by_cases h : key' = key
  · simp [valueOf?, h]
  · simp [valueOf?, h, Ne.symm h]

theorem mem_putValue {done : Attributes} {key key' value value' : String} :
    (key, value) ∈ putValue done key' value' ↔
      if key = key' then value = value' else (key, value) ∈ done := by
  unfold putValue
  split_ifs with hany hkey hkey
  -- the name is there already, and this is its value or that of another name
  · obtain ⟨⟨k, v⟩, hmem, hk⟩ := List.any_eq_true.mp hany
    obtain rfl : k = key' := by simpa using hk
    subst hkey
    simp only [List.mem_map, Prod.exists]
    constructor
    · rintro ⟨a, b, -, hab⟩
      split_ifs at hab with ha
      · exact (Prod.mk.inj hab).2.symm
      · exact absurd (Prod.mk.inj hab).1 (by simpa using ha)
    · rintro rfl
      exact ⟨key, v, hmem, by simp⟩
  · simp only [List.mem_map, Prod.exists]
    constructor
    · rintro ⟨a, b, hmem, hab⟩
      split_ifs at hab with ha
      · exact absurd ((Prod.mk.inj hab).1.symm.trans (by simpa using ha)) hkey
      · exact hab ▸ hmem
    · intro hmem
      exact ⟨key, value, hmem, by simp [hkey]⟩
  · subst hkey
    have hnone : (key, value) ∉ done := fun hmem =>
      hany (List.any_eq_true.mpr ⟨_, hmem, by simp⟩)
    simp [hnone]
  · simp [hkey]

theorem mem_lastValues {attributes : Attributes} {key value : String} :
    (key, value) ∈ lastValues attributes ↔ valueOf? key attributes = some value := by
  induction attributes using List.reverseRecOn with
  | nil => simp [lastValues, valueOf?]
  | append_singleton attributes a ih =>
    rw [lastValues_concat, valueOf?_concat, mem_putValue, ih]
    split_ifs
    · simp [eq_comm]
    · rfl

/-- A list that gives no name twice is its own map. -/
theorem lastValues_of_nodup {attributes : Attributes} (h : (attributes.map (·.1)).Nodup) :
    lastValues attributes = attributes := by
  induction attributes using List.reverseRecOn with
  | nil => rfl
  | append_singleton attributes a ih =>
    obtain ⟨key, value⟩ := a
    rw [List.map_append] at h
    have hnew : (attributes.any (·.1 == key)) = false := by
      rw [List.any_eq_false]
      intro b hb heq
      have hkey : b.1 = key := by simpa using heq
      exact List.disjoint_of_nodup_append h (List.mem_map_of_mem hb) (by simp [hkey])
    rw [lastValues_concat, ih (List.Nodup.of_append_left h), putValue, if_neg (by simp [hnew])]

theorem setAll_ok_iff {attributes : Attributes} {g : Graph Float} :
    (∃ g', attributes.foldlM (fun g (key, value) => setAttribute g key value) g = .ok g') ↔
      ∀ key value, (key, value) ∈ attributes → Admissible key value := by
  induction attributes generalizing g with
  | nil => simp [pure, Except.pure]
  | cons a attributes ih =>
    obtain ⟨k, v⟩ := a
    rw [List.foldlM_cons]
    constructor
    · rintro ⟨g', h⟩
      obtain ⟨g₁, h₁, h₂⟩ := ok_of_bind_ok h
      intro key value hmem
      rcases List.mem_cons.mp hmem with heq | hmem
      · cases heq
        exact setAttribute_ok_iff.mp ⟨g₁, h₁⟩
      · exact ih.mp ⟨g', h₂⟩ key value hmem
    · intro h
      obtain ⟨g₁, h₁⟩ := (setAttribute_ok_iff (g := g)).mpr (h k v List.mem_cons_self)
      obtain ⟨g', h₂⟩ := (ih (g := g₁)).mpr fun key value hmem =>
        h key value (List.mem_cons_of_mem _ hmem)
      simp only [h₁]
      exact ⟨g', h₂⟩

/-- Graph attributes leave nodes and edges alone. -/
theorem setAttribute_graph {g g' : Graph Float} {key value : String}
    (h : setAttribute g key value = .ok g') : g'.nodes = g.nodes ∧ g'.edges = g.edges := by
  unfold setAttribute at h
  split at h
  · split at h <;> cases h
    exact ⟨rfl, rfl⟩
  · cases hgap : readGap? value <;> rw [hgap] at h <;> cases h
    exact ⟨rfl, rfl⟩
  · cases hgap : readGap? value <;> rw [hgap] at h <;> cases h
    exact ⟨rfl, rfl⟩
  · cases h
    exact ⟨rfl, rfl⟩

/-- What every attribute of a list keeps, all of them keep. -/
theorem setAll_preserves {P : Graph Float → Prop} {attributes : Attributes} {g g' : Graph Float}
    (hstep : ∀ {g g' : Graph Float} {a : String × String}, a ∈ attributes → P g →
      setAttribute g a.1 a.2 = .ok g' → P g') (hg : P g)
    (h : attributes.foldlM (fun g (key, value) => setAttribute g key value) g = .ok g') :
    P g' := by
  induction attributes generalizing g with
  | nil =>
    cases h
    exact hg
  | cons a attributes ih =>
    rw [List.foldlM_cons] at h
    obtain ⟨g₁, h₁, h₂⟩ := ok_of_bind_ok h
    exact ih (fun ha => hstep (List.mem_cons_of_mem _ ha)) (hstep List.mem_cons_self hg h₁) h₂

theorem setAll_graph {attributes : Attributes} {g g' : Graph Float}
    (h : attributes.foldlM (fun g (key, value) => setAttribute g key value) g = .ok g') :
    g'.nodes = g.nodes ∧ g'.edges = g.edges := by
  refine setAll_preserves (P := fun g' => g'.nodes = g.nodes ∧ g'.edges = g.edges)
    (fun _ hg hset => ?_) ⟨rfl, rfl⟩ h
  obtain ⟨hnodes, hedges⟩ := setAttribute_graph hset
  exact ⟨hnodes.trans hg.1, hedges.trans hg.2⟩

end Description

end Scrawl
