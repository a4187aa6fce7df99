import Scrawl.Config
import Scrawl.Proofs.Decimal.Zeros

/-!
# Scrawl.Proofs.Config — configurations and their ranges

A number of a configuration is refused if it compares as out of range.  What is no number compares
as nothing, so it passes, and every other number that passes is in range.

* `apply_eq_ok_iff`: settings are accepted if they leave every number in range, or no number, and
  name an engine that there is.
* `inRange_of_obtained`: so is every configuration that is obtained.
* `held_inRange`: what is held while settings are tried one after the other.
-/

namespace Scrawl

namespace Decimal

open Float.Model (UnpackedFloat)

variable {a b : Float}

/-! ### Comparisons -/

theorem lt_iff : a < b ↔ UnpackedFloat.compare (unpacked a) (unpacked b) = some .lt := by
  change decide (UnpackedFloat.lt (unpacked a) (unpacked b) = true) = true ↔ _
  rw [decide_eq_true_iff, UnpackedFloat.lt, beq_iff_eq]

theorem le_iff :
    a ≤ b ↔ UnpackedFloat.compare (unpacked a) (unpacked b) = some .lt ∨
      UnpackedFloat.compare (unpacked a) (unpacked b) = some .eq := by
  change decide (UnpackedFloat.le (unpacked a) (unpacked b) = true) = true ↔ _
  rw [decide_eq_true_iff, UnpackedFloat.le]
  cases UnpackedFloat.compare (unpacked a) (unpacked b) with
  | none => simp
  | some o => cases o <;> simp

theorem unpacked_zero : unpacked 0.0 = .zero .positive := rfl

/-- What does not compare as negative is no number, or it is at least zero. -/
theorem not_lt_zero_iff : ¬ a < 0.0 ↔ a.isNaN ∨ 0.0 ≤ a := by
  rw [lt_iff, le_iff, isNaN_iff, unpacked_zero]
  cases unpacked a with
  | notANumber => simp [UnpackedFloat.compare]
  | infinity s | zero s | finite s m e hm => cases s <;> simp [UnpackedFloat.compare]

/-- What does not compare as zero or less is no number, or it is positive. -/
theorem not_le_zero_iff : ¬ a ≤ 0.0 ↔ a.isNaN ∨ 0.0 < a := by
  rw [lt_iff, le_iff, isNaN_iff, unpacked_zero]
  cases unpacked a with
  | notANumber => simp [UnpackedFloat.compare]
  | infinity s | zero s | finite s m e hm => cases s <;> simp [UnpackedFloat.compare]

end Decimal

namespace Config

variable {c c' d : Config} {s : Settings}

/-! ### Ranges -/

/-- Every number of the configuration is in its range, or is no number. -/
structure InRange (c : Config) : Prop where
  sketchiness : c.sketchiness.isNaN ∨ 0.0 ≤ c.sketchiness
  delay : c.delay.isNaN ∨ 0.0 ≤ c.delay
  padding : c.padding.isNaN ∨ 0.0 ≤ c.padding
  margin : c.margin.isNaN ∨ 0.0 ≤ c.margin
  fontSize : c.fontSize.isNaN ∨ 0.0 < c.fontSize

theorem inRange_iff : c.InRange ↔ ∀ setting, c.rangeFault? setting = none := by
  have hfault {p : Prop} [Decidable p] {fault : ConfigFault} :
      (if p then some fault else none) = none ↔ ¬ p := by simp
  constructor
  · rintro ⟨hsketchiness, hdelay, hpadding, hmargin, hfontSize⟩ setting
    cases setting with
    | sketchiness => exact hfault.mpr (Decimal.not_lt_zero_iff.mpr hsketchiness)
    | delay => exact hfault.mpr (Decimal.not_lt_zero_iff.mpr hdelay)
    | padding => exact hfault.mpr (Decimal.not_lt_zero_iff.mpr hpadding)
    | margin => exact hfault.mpr (Decimal.not_lt_zero_iff.mpr hmargin)
    | fontSize => exact hfault.mpr (Decimal.not_le_zero_iff.mpr hfontSize)
    | seed | fontFamily | fontPath | engine => rfl
  · intro h
    exact {
      sketchiness := Decimal.not_lt_zero_iff.mp (hfault.mp (h .sketchiness))
      delay := Decimal.not_lt_zero_iff.mp (hfault.mp (h .delay))
      padding := Decimal.not_lt_zero_iff.mp (hfault.mp (h .padding))
      margin := Decimal.not_lt_zero_iff.mp (hfault.mp (h .margin))
      fontSize := Decimal.not_le_zero_iff.mp (hfault.mp (h .fontSize)) }

theorem findSome?_rangeFault? : Setting.all.findSome? c.rangeFault? = none ↔ c.InRange := by
  rw [List.findSome?_eq_none_iff, inRange_iff]
  refine ⟨fun h setting => h setting ?_, fun h setting _ => h setting⟩
  cases setting <;> decide

/-- The engine is not a number. -/
theorem InRange.withEngine (h : c.InRange) (engine : Engine) : { c with engine }.InRange :=
  ⟨h.sketchiness, h.delay, h.padding, h.margin, h.fontSize⟩

/-! ### Settings that are accepted -/

/-- The settings leave every number in range and name an engine that there is, if they name one. -/
structure Accepts (c : Config) (s : Settings) : Prop where
  inRange : (c.overlay s).InRange
  engine : ∀ name ∈ s.engine, name ∈ Engine.all.map (·.name)

theorem mem_names {name : String} :
    name ∈ Engine.all.map (·.name) ↔ ∃ e, Engine.ofName? name = some e := by
  rw [← Option.isSome_iff_exists, Engine.ofName?, List.find?_isSome, List.mem_map]
  simp only [beq_iff_eq]

/-- **Settings are accepted** if they leave every number in range, or no number, and name an engine
that there is; they then take the places of those before. -/
theorem apply_eq_ok_iff :
    c.apply s = .ok d ↔ c.Accepts s ∧
      d = { c.overlay s with engine := (s.engine.bind Engine.ofName?).getD c.engine } := by
  constructor
  · intro h
    unfold apply at h
    dsimp only at h
    split at h
    · cases h
    · next hrange hengine =>
      cases h
      refine ⟨⟨findSome?_rangeFault?.mp hrange, ?_⟩, ?_⟩
      · simp [hengine]
      · simp only [hengine, Option.bind_none, Option.getD_none]
        rfl
    · next name hrange hengine =>
      split at h
      · next engine hname =>
        cases h
        refine ⟨⟨findSome?_rangeFault?.mp hrange, ?_⟩, ?_⟩
        · intro name' hname'
          obtain rfl : name = name' := Option.some.inj (hengine.symm.trans hname')
          exact mem_names.mpr ⟨engine, hname⟩
        · simp only [hengine, Option.bind_some, hname, Option.getD_some]
      · cases h
  · rintro ⟨⟨hrange, hname⟩, rfl⟩
    have hnone := findSome?_rangeFault?.mpr hrange
    unfold apply
    dsimp only
    cases hengine : s.engine with
    | none =>
      rw [hnone]
      rfl
    | some name =>
      obtain ⟨engine, he⟩ := mem_names.mp (hname name hengine)
      simp only [hnone, he, Option.bind_some, Option.getD_some]

theorem apply_of_not_accepts (h : ¬ c.Accepts s) : ∃ fault, c.apply s = .error fault := by
  cases happly : c.apply s with
  | ok changed => exact absurd (apply_eq_ok_iff.mp happly).1 h
  | error fault => exact ⟨fault, rfl⟩

/-- A configuration that settings lead to is in range. -/
theorem inRange_of_apply (h : c.apply s = .ok d) : d.InRange := by
  obtain ⟨⟨hrange, -⟩, rfl⟩ := apply_eq_ok_iff.mp h
  exact hrange.withEngine _

/-- The settings that a configuration is made of. -/
def settings (c : Config) : Settings where
  sketchiness := some c.sketchiness
  seed := some c.seed
  delay := some c.delay
  padding := some c.padding
  margin := some c.margin
  fontFamily := some c.fontFamily
  fontPath := c.fontPath
  fontSize := some c.fontSize
  engine := some c.engine.name

theorem ofName?_name (engine : Engine) : Engine.ofName? engine.name = some engine := by
  cases engine <;> decide

/-- A configuration in range is that of its settings. -/
theorem ofSettings_settings (h : c.InRange) : ofSettings c.settings = .ok c := by
  have hoverlay : { overlay {} c.settings with engine := c.engine } = c := by
    simp [overlay, settings]
  refine apply_eq_ok_iff.mpr ⟨⟨?_, ?_⟩, ?_⟩
  · rw [← hoverlay] at h
    exact h.withEngine .auto
  · rintro name ⟨⟩
    exact mem_names.mpr ⟨c.engine, ofName?_name c.engine⟩
  · rw [settings, Option.bind_some, ofName?_name, Option.getD_some, ← settings, hoverlay]

/-- The configurations that settings, an environment or an override give. -/
inductive Obtained : Config → Prop
  | ofSettings {s : Settings} {c : Config} : Config.ofSettings s = .ok c → Obtained c
  | ofEnvironment {value? : String → Option String} {c : Config} :
      Config.ofEnvironment value? = .ok c → Obtained c
  | apply {c : Config} {s : Settings} {d : Config} : Obtained c → c.apply s = .ok d → Obtained d

theorem inRange_of_obtained (h : Obtained c) : c.InRange := by
  cases h with
  | ofSettings h => exact inRange_of_apply h
  | @ofEnvironment value? _ h =>
    cases hread : Settings.ofEnvironment value? with
    | error fault =>
      rw [Config.ofEnvironment, hread] at h
      cases h
    | ok s =>
      rw [Config.ofEnvironment, hread] at h
      exact inRange_of_apply h
  | apply _ h => exact inRange_of_apply h

/-! ### Settings tried one after the other -/

/-- The configuration that is held once settings are tried: those that are refused change nothing.
-/
def tried (c : Config) (s : Settings) : Config :=
  match c.apply s with
  | .ok changed => changed
  | .error _ => c

/-- The configurations that are held in turn while settings are tried. -/
def held (c : Config) (overrides : List Settings) : List Config := overrides.scanl tried c

theorem Obtained.tried (h : Obtained c) (s : Settings) : Obtained (c.tried s) := by
  unfold Config.tried
  split
  · next hs => exact h.apply hs
  · exact h

theorem obtained_of_held (h : Obtained c) {overrides : List Settings} (hd : d ∈ c.held overrides) :
    Obtained d := by
  induction overrides generalizing c with
  | nil =>
    obtain rfl := List.mem_singleton.mp hd
    exact h
  | cons s overrides ih =>
    rw [held, List.scanl_cons] at hd
    rcases List.mem_cons.mp hd with rfl | hd
    · exact h
    · exact ih (h.tried s) hd

/-- What is held next is what comes of the settings that are tried now. -/
theorem held_succ {overrides : List Settings} {i : ℕ} (hd : (c.held overrides)[i]? = some d)
    (hs : overrides[i]? = some s) : (c.held overrides)[i + 1]? = some (d.tried s) := by
  rw [held] at hd ⊢
  rw [List.getElem?_succ_scanl, hd, hs]
  rfl

/-- **Every configuration that is held while settings are tried**, in whatever order, has its numbers
in range unless they are no numbers, and one of the three engines.  Settings are accepted exactly if
that stays so, and those that are refused leave what is held as it is. -/
theorem held_inRange (h : Obtained c) {overrides : List Settings} {i : ℕ}
    (hd : (c.held overrides)[i]? = some d) :
    d.InRange ∧ d.engine.name ∈ ["auto", "builtin", "graphviz"] ∧
      ∀ s, overrides[i]? = some s →
        (d.Accepts s → ∃ next, d.apply s = .ok next ∧ (c.held overrides)[i + 1]? = some next) ∧
        (¬ d.Accepts s → ∃ fault, d.apply s = .error fault ∧
          (c.held overrides)[i + 1]? = some d) := by
  have hobtained : Obtained d := obtained_of_held h (List.mem_of_getElem? hd)
  refine ⟨inRange_of_obtained hobtained, ?_, fun s hs => ?_⟩
  · cases d.engine <;> decide
  rw [held_succ hd hs, Config.tried]
  refine ⟨fun haccepts => ?_, fun hrefuses => ?_⟩
  · have hok := apply_eq_ok_iff.mpr ⟨haccepts, rfl⟩
    exact ⟨_, hok, by rw [hok]⟩
  · obtain ⟨fault, hfault⟩ := apply_of_not_accepts hrefuses
    exact ⟨fault, hfault, by rw [hfault]⟩

/-- An environment that sets the sketchiness. -/
def sketchinessOnly (text name : String) : Option String :=
  if name = Setting.sketchiness.variable then some text else none

theorem held_inRange_rough : ∃ c, Config.ofEnvironment (sketchinessOnly "1.5") = .ok c ∧
    (c.tried { margin := some (-1.0) }).InRange := by
  obtain ⟨c, hc⟩ : ∃ c, Config.ofEnvironment (sketchinessOnly "1.5") = .ok c := ⟨_, rfl⟩
  have hnext : (c.held [{ margin := some (-1.0) }])[1]? = some (c.tried { margin := some (-1.0) }) :=
    held_succ rfl rfl
  exact ⟨c, hc, (held_inRange (.ofEnvironment hc) hnext).1⟩

/-- What is no number is accepted for the sketchiness. -/
theorem ofEnvironment_nan : ∃ c, Config.ofEnvironment (sketchinessOnly "nan") = .ok c ∧
    ¬ 0.0 ≤ c.sketchiness :=
  ⟨_, rfl, by decide⟩

end Config

end Scrawl
