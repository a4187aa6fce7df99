import Mathlib.Order.Nat
import Scrawl.Proofs.Live.History

/-!
# Scrawl.Proofs.Live.Accounts — what the runs of a session come to

If pipeline and surfaces raise only what a rendering is expected to meet, every run either mounts
its scene or is reported, and nothing else changes what a surface shows.

* `run_attempt`: what one run does, going by what it comes to.
* `Accounted.fire`, `accounted_of_reaches`: runs, scenes and reports of a history.
* `session_accounts`: the surfaces show their last scenes, and every run is accounted for.
-/

namespace Scrawl.Live

open File (Disk)

variable {τ κ : Type}

/-! ### Means that raise what is expected -/

/-- The pipeline and the surfaces raise only what a rendering is expected to meet. -/
structure Workshop.Expected (w : Workshop κ) : Prop where
  render : ∀ text fault, (w.render text).result = .error fault → fault.code?.isSome
  mount : ∀ v scene disk fault, w.mount v scene disk = .error fault → fault.isExpected

/-- What is raised is reported, and changes nothing but the count of runs; else the scene is mounted
and nothing is reported. -/
theorem run_attempt [DecidableEq κ] {w : Workshop κ} (hw : w.Expected) (s : Session τ κ) (v : κ)
    (text : String) :
    (∀ fault, w.attempt v text s.disk = .error fault →
      (s.run w v text).1.outcome.report? = some fault ∧
        (s.run w v text).2 = { s with runs := s.runs + 1 }) ∧
    ∀ scene disk, w.attempt v text s.disk = .ok (scene, disk) →
      (s.run w v text).1.outcome.report? = none ∧
        (s.run w v text).2 = Session.mounted { s with runs := s.runs + 1 } v scene disk := by
  unfold Workshop.attempt Session.run
  dsimp only
  cases hrender : (w.render text).result with
  | error fault =>
    obtain ⟨code, hcode⟩ := Option.isSome_iff_exists.mp (hw.render text fault hrender)
    refine ⟨fun f hf => ?_, fun scene disk hok => by cases hok⟩
    cases hf
    dsimp only
    rw [hcode]
    exact ⟨rfl, rfl⟩
  | ok scene =>
    dsimp only
    cases hmount : w.mount v scene s.disk with
    | error fault =>
      refine ⟨fun f hf => ?_, fun scene disk hok => by cases hok⟩
      cases hf
      dsimp only
      rw [if_pos (hw.mount v scene s.disk fault hmount)]
      exact ⟨rfl, rfl⟩
    | ok disk =>
      refine ⟨fun f hf => (by cases hf), fun scene' disk' hok => ?_⟩
      cases hok
      exact ⟨rfl, rfl⟩

/-! ### Accounts of a history -/

namespace Event

/-- The scene that is mounted, with its surface. -/
def mounted? : Event τ κ → Option (κ × Scene)
  | ran _ _ surface _ (.ok scene) => some (surface, scene)
  | _ => none

/-- What a run raises. -/
def raised? : Event τ κ → Option RunFault
  | ran _ _ _ _ (.error fault) => some fault
  | _ => none

/-- What is reported. -/
def report? : Event τ κ → Option RunFault
  | reported fault => some fault
  | _ => none

end Event

/-- The scenes that are mounted on a surface, in order. -/
def scenesOf [DecidableEq κ] (h : List (Event τ κ)) (v : κ) : List Scene :=
  ((h.filterMap Event.mounted?).filter (·.1 = v)).map (·.2)

/-- What a surface shows behind scenes that are mounted on it. -/
def Shown.behind (shown : Shown) (scenes : List Scene) : Shown :=
  ⟨scenes.getLast?.or shown.current, shown.generation + scenes.length⟩

theorem Shown.behind_append (shown : Shown) (a b : List Scene) :
    (shown.behind a).behind b = shown.behind (a ++ b) := by
  simp [behind, List.getLast?_append, Option.or_assoc, Nat.add_assoc]

/-- Every run that raises something is reported at once. -/
def Answered (h : List (Event τ κ)) : Prop :=
  ∀ before id time v text fault after,
    h = before ++ .ran id time v text (.error fault) :: after →
      ∃ rest, after = .reported fault :: rest

theorem Answered.append {h h' : List (Event τ κ)} (hh : Answered h) (hh' : Answered h') :
    Answered (h ++ h') := by
  intro before id time v text fault after heq
  rcases List.append_eq_append_iff.mp heq with ⟨l, rfl, hl⟩ | ⟨l, rfl, hl⟩
  · exact hh' l id time v text fault after hl
  · cases l with
    | nil => exact hh' [] id time v text fault after hl.symm
    | cons x l =>
      obtain ⟨rfl, rfl⟩ := List.cons_eq_cons.mp hl
      obtain ⟨rest, rfl⟩ := hh before id time v text fault l rfl
      exact ⟨rest ++ h', rfl⟩

theorem answered_of_not_raised {e : Event τ κ} (he : e.raised? = none) : Answered [e] := by
  intro before id time v text fault after heq
  have hmem : .ran id time v text (.error fault) ∈ [e] := heq ▸ by simp
  obtain rfl := List.mem_singleton.mp hmem
  cases he

theorem answered_reported (id : ℕ) (time : τ) (v : κ) (text : String) (fault : RunFault) :
    Answered [.ran id time v text (.error fault), .reported fault] := by
  intro before id' time' v' text' fault' after heq
  cases before with
  | nil =>
    cases heq
    exact ⟨[], rfl⟩
  | cons x before =>
    exact answered_of_not_raised (e := .reported fault) rfl before id' time' v' text' fault' after
      (List.cons.inj heq).2

section Accounts

variable [DecidableEq κ] {shown : κ → Shown} {h : List (Event τ κ)} {s : Session τ κ}

/-- Surfaces, runs and reports are those of the history. -/
structure Accounted (shown : κ → Shown) (h : List (Event τ κ)) (s : Session τ κ) : Prop where
  shows : ∀ v, s.shown v = (shown v).behind (scenesOf h v)
  reports : h.filterMap Event.report? = h.filterMap Event.raised?
  answered : Answered h
  runs : s.runs = (h.filterMap Event.mounted?).length + (h.filterMap Event.report?).length

theorem accounted_opened (delay now : τ) (disk : Disk) :
    Accounted shown [] (Session.opened delay now shown disk) where
  shows _ := rfl
  reports := rfl
  answered before id time v text fault after h := absurd h.symm (by simp)
  runs := rfl

/-- Accounts go on where what happens next accounts for the next state. -/
theorem Accounted.append (ha : Accounted shown h s) {h' : List (Event τ κ)} {s' : Session τ κ}
    (hshows : ∀ v, s'.shown v = (s.shown v).behind (scenesOf h' v))
    (hreports : h'.filterMap Event.report? = h'.filterMap Event.raised?) (hanswered : Answered h')
    (hruns : s'.runs =
      s.runs + ((h'.filterMap Event.mounted?).length + (h'.filterMap Event.report?).length)) :
    Accounted shown (h ++ h') s' := by
  refine ⟨fun v => ?_, ?_, ha.answered.append hanswered, ?_⟩
  · rw [hshows, ha.shows, Shown.behind_append]
    simp [scenesOf]
  · rw [List.filterMap_append, List.filterMap_append, ha.reports, hreports]
  · rw [hruns, ha.runs, List.filterMap_append, List.filterMap_append, List.length_append,
      List.length_append]
    omega

/-- A call mounts and reports nothing. -/
theorem Accounted.call [Add τ] (ha : Accounted shown h s) (c : Call κ) :
    Accounted shown (h ++ [s.said c]) (s.call c) := by
  cases c <;> exact ha.append (fun _ => rfl) rfl (answered_of_not_raised rfl) rfl

/-- A timer that fires mounts its scene, or what is raised is reported. -/
theorem Accounted.fire [LinearOrder τ] (ha : Accounted shown h s) {w : Workshop κ}
    (hw : w.Expected) (t : Timer τ (κ × String)) :
    Accounted shown (h ++ s.ran w t) (s.fire w t).2 := by
  obtain ⟨herror, hok⟩ :=
    run_attempt hw { s with debouncer := s.debouncer.fire t } t.task.1 t.task.2
  rw [Session.ran, Session.fire]
  cases hattempt : w.attempt t.task.1 t.task.2 s.disk with
  | error fault =>
    obtain ⟨hreport, hstate⟩ := herror fault hattempt
    rw [hreport, hstate]
    exact ha.append (fun _ => rfl) rfl (answered_reported _ _ _ _ _) rfl
  | ok result =>
    obtain ⟨scene, disk⟩ := result
    obtain ⟨hreport, hstate⟩ := hok scene disk hattempt
    rw [hreport, hstate]
    refine ha.append (fun v => ?_) rfl (answered_of_not_raised rfl) rfl
    by_cases hv : v = t.task.1
    · subst hv
      simp [Session.mounted, scenesOf, Event.mounted?, Except.map, Shown.behind]
    · simp [Session.mounted, scenesOf, Event.mounted?, Except.map, Shown.behind, hv, Ne.symm hv]

section Reached

variable [Add τ] [LinearOrder τ] {means : ℕ → Workshop κ} {delay now : τ} {disk : Disk}

theorem accounted_of_reaches (hw : ∀ n, (means n).Expected)
    (hr : Reaches means (Session.opened delay now shown disk) h s) : Accounted shown h s :=
  hr.induct (accounted_opened delay now disk) (fun _ _ c ha => ha.call c)
    (fun _ _ t _ _ ha => ha.fire (hw _) t)
    fun _ _ _ _ _ ha => ⟨ha.shows, ha.reports, ha.answered, ha.runs⟩

/-- **What the runs of a session come to.**  If the pipeline and the surfaces raise only what a
rendering is expected to meet, then in every history:

* a surface shows the last scene that was mounted on it, or what it showed at first, and counts the
  scenes;
* every run that raises something is reported, with what it raises, at once and once, and it leaves
  the surfaces and the disk as they are;
* the runs are those that mounted a scene and those that were reported. -/
theorem session_accounts (hw : ∀ n, (means n).Expected)
    (hr : Reaches means (Session.opened delay now shown disk) h s) :
    (∀ v, (s.shown v).current = (scenesOf h v).getLast?.or (shown v).current ∧
      (s.shown v).generation = (shown v).generation + (scenesOf h v).length) ∧
    (h.filterMap Event.report? = h.filterMap Event.raised? ∧
      (∀ before id time v text fault after,
        h = before ++ .ran id time v text (.error fault) :: after →
          ∃ rest, after = .reported fault :: rest) ∧
      ∀ t fault, (means s.runs).attempt t.task.1 t.task.2 s.disk = .error fault →
        (s.fire (means s.runs) t).2.shown = s.shown ∧
          (s.fire (means s.runs) t).2.disk = s.disk) ∧
    s.runs = (h.filterMap Event.mounted?).length + (h.filterMap Event.report?).length := by
  have ha : Accounted shown h s := accounted_of_reaches hw hr
  refine ⟨fun v => ?_, ⟨ha.reports, ha.answered, fun t fault hattempt => ?_⟩, ha.runs⟩
  · rw [ha.shows]
    exact ⟨rfl, rfl⟩
  · obtain ⟨-, hstate⟩ := (run_attempt (hw s.runs) { s with debouncer := s.debouncer.fire t }
      t.task.1 t.task.2).1 fault hattempt
    rw [Session.fire, hstate]
    exact ⟨rfl, rfl⟩

end Reached

end Accounts

/-- A pipeline that makes an empty scene of everything, and one surface of two that takes none. -/
def half : Workshop Bool where
  render _ := ⟨[], .ok ⟨.branch "svg" [] [], 0.0, 0.0⟩⟩
  mount v := if v then Mount.memory else Mount.refusing "no room"

theorem half_expected : half.Expected where
  render _ _ h := by cases h
  mount v scene disk fault h := by
    cases v with
    | false =>
      cases h
      rfl
    | true => cases h

/-- One surface takes the scene, and the other refuses it. -/
theorem session_accounts_half : ∃ (h : List (Event ℕ Bool)) (s : Session ℕ Bool),
    Reaches (fun _ => half) (Session.opened 2 0 (fun _ => {}) {}) h s ∧
    (s.shown true).generation = 1 ∧ (s.shown false).current = none ∧ s.runs = 2 ∧
      h.filterMap Event.report? = [.mount (.refused "no room")] := by
  let s₀ : Session ℕ Bool := Session.opened 2 0 (fun _ => {}) {}
  let s₁ := s₀.call (.schedule true "a")
  let s₂ := s₁.call (.schedule false "b")
  let t : Timer ℕ (Bool × String) := ⟨0, 2, (true, "a")⟩
  let u : Timer ℕ (Bool × String) := ⟨1, 2, (false, "b")⟩
  let s₃ := (s₂.fire half t).2
  have harmed : s₂.armed = [t, u] := rfl
  have harmed' : s₃.armed = [u] := rfl
  have hasked : Reaches (fun _ => half) s₀ ([] ++ [s₀.said (.schedule true "a")] ++
      [s₁.said (.schedule false "b")]) s₂ := (Reaches.refl.step (.call _)).step (.call _)
  have hmounted := hasked.step
    (Step.fire (t := t) (harmed ▸ List.mem_cons_self) (harmed ▸ by simp [t, u]) [] fun _ => rfl)
  have hrefused := hmounted.step
    (Step.fire (t := u) (harmed' ▸ List.mem_cons_self) (harmed' ▸ by simp) [] fun _ => rfl)
  obtain ⟨hshown, ⟨hreports, -⟩, hruns⟩ := session_accounts (fun _ => half_expected) hrefused
  exact ⟨_, _, hrefused, (hshown true).2, (hshown false).1, hruns, hreports⟩

end Scrawl.Live
