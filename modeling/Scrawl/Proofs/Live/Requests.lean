import Mathlib.Algebra.Order.Ring.Nat
import Mathlib.Data.List.Basic
import Scrawl.Proofs.Live.History

/-!
# Scrawl.Proofs.Live.Requests — what becomes of a request

A request for a surface waits for the delay of the session, and is then run, unless a later request
for the surface or a withdrawal comes first.  `Fate` says which of the three has happened to it,
going by what came behind it.

* `Fate.next`, `Fate.serve`: one event leads from one fate to the next.
* `Traced.call`, `Traced.fire`, `Traced.wait`, `traced_of_reaches`: every request of a history has
  its fate, and every armed timer and every run has its request.
* `requests_run`: a request is run exactly once, when its delay is over, if nothing takes it back
  before; else never.
-/

namespace Scrawl.Live

open File (Disk)

variable {τ κ : Type}

/-! ### The three fates -/

namespace Event

/-- Whether it takes back what is asked for a surface: a later request for the surface, or a
withdrawal of it or of all. -/
def Withdraws (surface : κ) : Event τ κ → Prop
  | asked r => r.surface = surface
  | withdrawn v => v = surface
  | withdrawnAll => True
  | _ => False

/-- Whether it is the run of the request of a number. -/
def isRunOf (id : ℕ) : Event τ κ → Bool
  | ran i .. => i == id
  | _ => false

/-- The request that is made, if it is one. -/
def request? : Event τ κ → Option (Request τ κ)
  | asked r => some r
  | _ => none

end Event

/-- What a request asks of the clock. -/
def Request.timer [Add τ] (delay : τ) (r : Request τ κ) : Timer τ (κ × String) :=
  ⟨r.id, r.time + delay, (r.surface, r.text)⟩

/-- What has become of a request, going by the events behind it and the timers now. -/
inductive Fate [Add τ] (delay : τ) (r : Request τ κ) (later : List (Event τ κ))
    (armed : List (Timer τ (κ × String))) : Prop
  | waiting (hkept : ∀ e ∈ later, ¬ e.Withdraws r.surface) (hnot : ∀ e ∈ later, ¬ e.isRunOf r.id)
      (harmed : r.timer delay ∈ armed)
  | served {before after : List (Event τ κ)} {result : Except RunFault Scene}
      (hlater : later =
        before ++ .ran r.id (r.time + delay) r.surface r.text result :: after)
      (hkept : ∀ e ∈ before, ¬ e.Withdraws r.surface) (hbefore : ∀ e ∈ before, ¬ e.isRunOf r.id)
      (hafter : ∀ e ∈ after, ¬ e.isRunOf r.id) (hspent : ∀ t ∈ armed, t.id ≠ r.id)
  | withdrawn {e : Event τ κ} (he : e ∈ later) (hw : e.Withdraws r.surface)
      (hnot : ∀ e ∈ later, ¬ e.isRunOf r.id) (hspent : ∀ t ∈ armed, t.id ≠ r.id)

theorem forall_mem_concat {α : Type} {P : α → Prop} {l : List α} {a : α} (hl : ∀ x ∈ l, P x)
    (ha : P a) : ∀ x ∈ l ++ [a], P x :=
  List.forall_mem_append.mpr ⟨hl, List.forall_mem_singleton.mpr ha⟩

section Fates

variable [Add τ] {delay : τ} {r : Request τ κ} {later : List (Event τ κ)}
  {armed armed' : List (Timer τ (κ × String))}

/-- What is no run of the request either leaves it waiting, or takes it back and its timer with it;
what has been run or withdrawn remains so. -/
theorem Fate.next (h : Fate delay r later armed) {e : Event τ κ} (hr : ¬ e.isRunOf r.id)
    (hold : ∀ t ∈ armed', t ∈ armed ∨ t.id ≠ r.id)
    (hnext : ¬ e.Withdraws r.surface ∧ (r.timer delay ∈ armed → r.timer delay ∈ armed') ∨
      e.Withdraws r.surface ∧ ∀ t ∈ armed', t.id ≠ r.id) :
    Fate delay r (later ++ [e]) armed' := by
  have hspent : (∀ t ∈ armed, t.id ≠ r.id) → ∀ t ∈ armed', t.id ≠ r.id := fun hs t ht =>
    (hold t ht).elim (hs t) id
  cases h with
  | waiting hkept hnot harmed =>
    rcases hnext with ⟨hw, hkeep⟩ | ⟨hw, hs⟩
    · exact .waiting (forall_mem_concat hkept hw) (forall_mem_concat hnot hr) (hkeep harmed)
    · exact .withdrawn List.mem_concat_self hw (forall_mem_concat hnot hr) hs
  | @served before after result hlater hkept hbefore hafter hs =>
    subst hlater
    rw [List.append_assoc, List.cons_append]
    exact .served rfl hkept hbefore (forall_mem_concat hafter hr) (hspent hs)
  | withdrawn he hw hnot hs =>
    exact .withdrawn (List.mem_append_left _ he) hw (forall_mem_concat hnot hr) (hspent hs)

/-- The run of a request that waits is its service. -/
theorem Fate.serve (h : Fate delay r later armed) (harmed : ∃ t ∈ armed, t.id = r.id)
    (result : Except RunFault Scene) (hspent : ∀ t ∈ armed', t.id ≠ r.id) :
    Fate delay r
      (later ++ [.ran r.id (r.time + delay) r.surface r.text result]) armed' := by
  obtain ⟨t, ht, hid⟩ := harmed
  cases h with
  | waiting hkept hnot _ => exact .served rfl hkept hnot (by simp) hspent
  | served _ _ _ _ hs => exact absurd hid (hs t ht)
  | withdrawn _ _ _ hs => exact absurd hid (hs t ht)

end Fates

/-! ### Timers behind a step -/

section Timers

variable [DecidableEq κ] {s : Session τ κ}

/-- A call disarms the timers of the surfaces that it takes back, and arms that of its request. -/
theorem mem_armed_call [Add τ] (h : s.debouncer.InStep) (c : Call κ)
    {t : Timer τ (κ × String)} : t ∈ (s.call c).armed ↔
      t ∈ s.armed ∧ ¬ (s.said c).Withdraws t.task.1 ∨
        ∃ r, s.said c = .asked r ∧ t = r.timer s.debouncer.delay := by
  cases c with
  | schedule v text =>
    have harmed : (s.call (.schedule v text)).armed = _ := h.armed_schedule v text
    rw [harmed, List.mem_append, List.mem_filter, List.mem_singleton, bne_iff_ne]
    refine or_congr (and_congr_right fun _ => not_congr ⟨Eq.symm, Eq.symm⟩) ⟨?_, ?_⟩
    · rintro rfl
      exact ⟨_, rfl, rfl⟩
    · rintro ⟨r, hr, rfl⟩
      cases hr
      rfl
  | cancel v =>
    have harmed : (s.call (.cancel v)).armed = _ := h.armed_cancel v
    rw [harmed, List.mem_filter, bne_iff_ne]
    constructor
    · rintro ⟨ht, hne⟩
      exact Or.inl ⟨ht, fun he => hne he.symm⟩
    · rintro (⟨ht, hne⟩ | ⟨r, hr, -⟩)
      · exact ⟨ht, fun he => hne he.symm⟩
      · cases hr
  | cancelAll =>
    have harmed : (s.call .cancelAll).armed = [] := h.armed_cancelAll
    simp [harmed, Session.said, Event.Withdraws]

theorem armed_fire [LT τ] [DecidableLT τ] (w : Workshop κ) (t : Timer τ (κ × String)) :
    (s.fire w t).2.armed = (s.debouncer.fire t).timers.armed := by
  rw [Session.fire, Session.armed, Session.run_debouncer]

theorem inStep_call [Add τ] (h : s.debouncer.InStep) (c : Call κ) :
    (s.call c).debouncer.InStep := by
  cases c with
  | schedule v text => exact h.schedule v text
  | cancel v => exact h.cancel v
  | cancelAll => exact h.cancelAll

/-- A call leaves the clock and the delay as they are. -/
theorem frame_call [Add τ] (s : Session τ κ) (c : Call κ) :
    (s.call c).now = s.now ∧ (s.call c).debouncer.delay = s.debouncer.delay := by
  cases c with
  | schedule v text => exact ⟨s.debouncer.now_cancel v, s.debouncer.delay_cancel v⟩
  | cancel v => exact ⟨s.debouncer.now_cancel v, s.debouncer.delay_cancel v⟩
  | cancelAll =>
    refine ⟨?_, rfl⟩
    rw [Session.now, Session.call, Session.cancelAll, Debouncer.cancelAll_timers]
    rfl

omit [DecidableEq κ] in
/-- A new request is numbered by how many there have been, and made now. -/
theorem said_asked {c : Call κ} {r : Request τ κ} (hr : s.said c = .asked r) :
    r.id = s.debouncer.timers.count ∧ r.time = s.now := by
  cases c with
  | schedule v text =>
    cases hr
    exact ⟨rfl, rfl⟩
  | cancel v => cases hr
  | cancelAll => cases hr

omit [DecidableEq κ] in
theorem not_isRunOf_said (s : Session τ κ) (c : Call κ) (id : ℕ) : ¬ (s.said c).isRunOf id := by
  cases c <;> simp [Session.said, Event.isRunOf]

/-- A request is numbered by how many there have been. -/
theorem requests_call [Add τ] (s : Session τ κ) (c : Call κ) {l : List (Request τ κ)}
    (hl : l.map (·.id) = List.range s.debouncer.timers.count) :
    (l ++ [s.said c].filterMap Event.request?).map (·.id) =
      List.range (s.call c).debouncer.timers.count := by
  cases c with
  | schedule v text =>
    have hcount : (s.call (.schedule v text)).debouncer.timers.count =
        s.debouncer.timers.count + 1 := congrArg (· + 1) (s.debouncer.count_cancel v)
    rw [hcount, List.range_succ, ← hl, List.map_append]
    rfl
  | cancel v =>
    have hcount : (s.call (.cancel v)).debouncer.timers.count = s.debouncer.timers.count :=
      s.debouncer.count_cancel v
    rw [hcount, ← hl]
    exact congrArg _ (List.append_nil l)
  | cancelAll =>
    have hcount : (s.call .cancelAll).debouncer.timers.count = s.debouncer.timers.count := by
      rw [Session.call, Session.cancelAll, Debouncer.cancelAll_timers]
    rw [hcount, ← hl]
    exact congrArg _ (List.append_nil l)

end Timers

/-! ### Histories and their requests -/

section Traces

variable {delay : τ} {h : List (Event τ κ)} {s s' : Session τ κ}

theorem mem_requests {r : Request τ κ} : r ∈ h.filterMap Event.request? ↔ .asked r ∈ h := by
  rw [List.mem_filterMap]
  constructor
  · rintro ⟨e, he, hr⟩
    cases e with
    | asked r' => exact (Option.some.inj hr) ▸ he
    | withdrawn | withdrawnAll | ran | reported => cases hr
  · intro hr
    exact ⟨_, hr, rfl⟩

/-- A request of a longer history is its last event, or one of the shorter. -/
theorem split_concat {before later : List (Event τ κ)} {e : Event τ κ} {r : Request τ κ}
    (heq : h ++ [e] = before ++ .asked r :: later) :
    (later = [] ∧ before = h ∧ e = .asked r) ∨
      ∃ later', later = later' ++ [e] ∧ h = before ++ .asked r :: later' := by
  rcases List.eq_nil_or_concat later with rfl | ⟨later', x, rfl⟩
  · obtain ⟨hh, he⟩ := List.append_inj' heq rfl
    exact Or.inl ⟨rfl, hh.symm, List.singleton_inj.mp he⟩
  · rw [List.concat_eq_append, ← List.cons_append, ← List.append_assoc] at heq
    obtain ⟨hh, he⟩ := List.append_inj' heq rfl
    obtain rfl := List.singleton_inj.mp he
    exact Or.inr ⟨later', List.concat_eq_append, hh⟩

variable [Add τ] [LinearOrder τ]

/-- Every request of the history has its fate, and every timer and every run its request. -/
structure Traced (delay : τ) (h : List (Event τ κ)) (s : Session τ κ) : Prop where
  inStep : s.debouncer.InStep
  delay_eq : s.debouncer.delay = delay
  future : ∀ t ∈ s.armed, s.now ≤ t.due
  ids : (h.filterMap Event.request?).map (·.id) = List.range s.debouncer.timers.count
  source : ∀ t ∈ s.armed, ∃ r, .asked r ∈ h ∧ t = r.timer delay
  runs : ∀ id time v text result, .ran id time v text result ∈ h →
    ∃ r, .asked r ∈ h ∧ id = r.id ∧ time = r.time + delay ∧ v = r.surface ∧ text = r.text
  fate : ∀ before r later, h = before ++ .asked r :: later →
    (∀ e ∈ before, ¬ e.isRunOf r.id) ∧ Fate delay r later s.armed

namespace Traced

variable (ht : Traced delay h s)
include ht

theorem id_lt {r : Request τ κ} (hr : .asked r ∈ h) : r.id < s.debouncer.timers.count := by
  rw [← List.mem_range, ← ht.ids]
  exact List.mem_map_of_mem (mem_requests.mpr hr)

theorem eq_of_id {r r' : Request τ κ} (hr : .asked r ∈ h) (hr' : .asked r' ∈ h)
    (hid : r.id = r'.id) : r = r' := by
  have hnodup : ((h.filterMap Event.request?).map (·.id)).Nodup := ht.ids ▸ List.nodup_range
  exact List.inj_on_of_nodup_map hnodup (mem_requests.mpr hr) (mem_requests.mpr hr') hid

/-- The timer of the number of a request is that of the request. -/
theorem eq_timer {r : Request τ κ} (hr : .asked r ∈ h) {t : Timer τ (κ × String)}
    (harmed : t ∈ s.armed) (hid : t.id = r.id) : t = r.timer delay := by
  obtain ⟨r', hr', rfl⟩ := ht.source t harmed
  rw [ht.eq_of_id hr' hr hid]

/-- A longer history has the requests of the timers that were armed. -/
theorem source_append (h' : List (Event τ κ)) {t : Timer τ (κ × String)} (harmed : t ∈ s.armed) :
    ∃ r, .asked r ∈ h ++ h' ∧ t = r.timer delay := by
  obtain ⟨r, hr, rfl⟩ := ht.source t harmed
  exact ⟨r, List.mem_append_left _ hr, rfl⟩

/-- One more event keeps the runs those of requests, unless it is a run without an armed timer. -/
theorem runs_concat {e : Event τ κ} (he : ∀ id time v text result,
      e = .ran id time v text result → ⟨id, time, (v, text)⟩ ∈ s.armed) :
    ∀ id time v text result, .ran id time v text result ∈ h ++ [e] → ∃ r, .asked r ∈ h ++ [e] ∧
      id = r.id ∧ time = r.time + delay ∧ v = r.surface ∧ text = r.text := by
  intro id time v text result hrun
  rcases List.mem_append.mp hrun with hrun | hrun
  · obtain ⟨r, hr, hmade⟩ := ht.runs id time v text result hrun
    exact ⟨r, List.mem_append_left _ hr, hmade⟩
  · have harmed := he id time v text result (List.mem_singleton.mp hrun).symm
    obtain ⟨r, hr, htimer⟩ := ht.source_append [e] harmed
    cases htimer
    exact ⟨r, hr, rfl, rfl, rfl, rfl⟩

/-- One more event keeps the fates if it does so for each request. -/
theorem fates {e : Event τ κ} {armed' : List (Timer τ (κ × String))}
    (hnew : ∀ r, e = .asked r → s.debouncer.timers.count ≤ r.id ∧ r.timer delay ∈ armed')
    (hold : ∀ r later, .asked r ∈ h → Fate delay r later s.armed →
      Fate delay r (later ++ [e]) armed') :
    ∀ before r later, h ++ [e] = before ++ .asked r :: later →
      (∀ e ∈ before, ¬ e.isRunOf r.id) ∧ Fate delay r later armed' := by
  intro before r later heq
  rcases split_concat heq with ⟨rfl, rfl, he⟩ | ⟨later', rfl, hh⟩
  · obtain ⟨hid, harmed⟩ := hnew r he
    refine ⟨fun x hx hrun => ?_, .waiting (by simp) (by simp) harmed⟩
    -- what has been run was asked for under a lower number
    cases x with
    | ran i time v text result =>
      obtain ⟨r', hr', rfl, -⟩ := ht.runs i time v text result hx
      have hlt := ht.id_lt hr'
      have : r'.id = r.id := by simpa [Event.isRunOf] using hrun
      omega
    | asked | withdrawn | withdrawnAll | reported => cases hrun
  · obtain ⟨hbefore, hfate⟩ := ht.fate before r later' hh
    have hr : .asked r ∈ h := hh ▸ List.mem_append_right _ List.mem_cons_self
    exact ⟨hbefore, hold r later' hr hfate⟩

end Traced

/-! ### Steps -/

variable [DecidableEq κ]

omit [DecidableEq κ] in
theorem traced_opened (delay now : τ) (shown : κ → Shown) (disk : Disk) :
    Traced delay [] (Session.opened delay now shown disk) where
  inStep := Debouncer.inStep_start delay now
  delay_eq := rfl
  future := fun _ ht => absurd ht List.not_mem_nil
  ids := rfl
  source := fun _ ht => absurd ht List.not_mem_nil
  runs := fun _ _ _ _ _ h => absurd h List.not_mem_nil
  fate := fun before r later h => absurd h.symm (by simp)

namespace Traced

variable (ht : Traced delay h s)
include ht

/-- A call leaves a request waiting, or takes it back and its timer with it. -/
theorem fate_call (c : Call κ) {r : Request τ κ} {later : List (Event τ κ)} (hr : .asked r ∈ h)
    (hfate : Fate delay r later s.armed) :
    Fate delay r (later ++ [s.said c]) (s.call c).armed := by
  have harmed := fun t => mem_armed_call ht.inStep c (t := t)
  have hlt : r.id < s.debouncer.timers.count := ht.id_lt hr
  -- the timer of a new request has a higher number
  have hother : ∀ r', s.said c = .asked r' → (r'.timer s.debouncer.delay).id ≠ r.id := by
    intro r' hr'
    have hid : r'.id = s.debouncer.timers.count := (said_asked hr').1
    simp only [Request.timer]
    omega
  refine hfate.next (not_isRunOf_said s c r.id) (fun t hmem => ?_) ?_
  · rcases (harmed t).mp hmem with ⟨hold, -⟩ | ⟨r', hr', rfl⟩
    · exact Or.inl hold
    · exact Or.inr (hother r' hr')
  · by_cases hw : (s.said c).Withdraws r.surface
    · refine Or.inr ⟨hw, fun t hmem hid => ?_⟩
      rcases (harmed t).mp hmem with ⟨hold, hkept⟩ | ⟨r', hr', rfl⟩
      · obtain rfl := ht.eq_timer hr hold hid
        exact hkept hw
      · exact hother r' hr' hid
    · exact Or.inl ⟨hw, fun hmem => (harmed _).mpr (Or.inl ⟨hmem, hw⟩)⟩

/-- A call arms a timer that is due no earlier than now. -/
theorem call (hdelay : ∀ time : τ, time ≤ time + delay) (c : Call κ) :
    Traced delay (h ++ [s.said c]) (s.call c) := by
  obtain ⟨hnow, hframe⟩ := frame_call s c
  have harmed : ∀ t, t ∈ (s.call c).armed ↔ t ∈ s.armed ∧ ¬ (s.said c).Withdraws t.task.1 ∨
      ∃ r, s.said c = .asked r ∧ t = r.timer delay := by
    intro t
    rw [mem_armed_call ht.inStep c, ht.delay_eq]
  have hfuture : ∀ t ∈ (s.call c).armed, (s.call c).now ≤ t.due := by
    intro t hmem
    rw [hnow]
    rcases (harmed t).mp hmem with ⟨hold, -⟩ | ⟨r, hr, rfl⟩
    · exact ht.future t hold
    · rw [← (said_asked hr).2]
      exact hdelay r.time
  have hsource : ∀ t ∈ (s.call c).armed, ∃ r, .asked r ∈ h ++ [s.said c] ∧ t = r.timer delay := by
    intro t hmem
    rcases (harmed t).mp hmem with ⟨hold, -⟩ | ⟨r, hr, rfl⟩
    · exact ht.source_append _ hold
    · exact ⟨r, hr ▸ List.mem_concat_self, rfl⟩
  have hnew : ∀ r, s.said c = .asked r →
      s.debouncer.timers.count ≤ r.id ∧ r.timer delay ∈ (s.call c).armed := by
    intro r hr
    exact ⟨(said_asked hr).1.ge, (harmed _).mpr (Or.inr ⟨r, hr, rfl⟩)⟩
  exact
    { inStep := inStep_call ht.inStep c
      delay_eq := hframe.trans ht.delay_eq
      future := hfuture
      ids := by
        rw [List.filterMap_append]
        exact requests_call s c ht.ids
      source := hsource
      runs := ht.runs_concat fun _ _ _ _ _ hrun => by cases c <;> cases hrun
      fate := ht.fates hnew fun _ _ hr hfate => ht.fate_call c hr hfate }

omit [DecidableEq κ] in
/-- A report changes nothing. -/
theorem report (fault : RunFault) : Traced delay (h ++ [.reported fault]) s where
  inStep := ht.inStep
  delay_eq := ht.delay_eq
  future := ht.future
  ids := by
    rw [List.filterMap_append, ← ht.ids]
    exact congrArg _ (List.append_nil _)
  source := fun _ hmem => ht.source_append _ hmem
  runs := ht.runs_concat fun _ _ _ _ _ hrun => by cases hrun
  fate := ht.fates (fun _ hr => by cases hr) fun _ _ _ hfate =>
    hfate.next (by simp [Event.isRunOf]) (fun _ hmem => Or.inl hmem)
      (Or.inl ⟨by simp [Event.Withdraws], id⟩)

theorem mem_armed_fire {w : Workshop κ} {t u : Timer τ (κ × String)} (hmem : t ∈ s.armed) :
    u ∈ (s.fire w t).2.armed ↔ u ∈ s.armed ∧ u.task.1 ≠ t.task.1 := by
  rw [armed_fire, ht.inStep.armed_fire hmem, List.mem_filter, bne_iff_ne]
  rfl

/-- The run of a timer is that of its request, and leaves the others as they are. -/
theorem fate_fire {w : Workshop κ} {r r' : Request τ κ} (hr : .asked r ∈ h)
    (hmem : r.timer delay ∈ s.armed) (result : Except RunFault Scene) (hr' : .asked r' ∈ h)
    {later : List (Event τ κ)} (hfate : Fate delay r' later s.armed) :
    Fate delay r' (later ++ [.ran r.id (r.time + delay) r.surface r.text result])
      (s.fire w (r.timer delay)).2.armed := by
  have harmed := fun u => ht.mem_armed_fire (w := w) (u := u) hmem
  by_cases hid : r'.id = r.id
  · obtain rfl := ht.eq_of_id hr' hr hid
    refine hfate.serve ⟨_, hmem, rfl⟩ result fun u hu hspent => ?_
    obtain ⟨hold, hother⟩ := (harmed u).mp hu
    obtain rfl := ht.eq_timer hr hold hspent
    exact hother rfl
  · refine hfate.next (by simpa [Event.isRunOf] using Ne.symm hid)
      (fun u hu => Or.inl ((harmed u).mp hu).1)
      (Or.inl ⟨by simp [Event.Withdraws], fun hu => ?_⟩)
    refine (harmed _).mpr ⟨hu, fun hsurface => hid ?_⟩
    exact congrArg Timer.id (ht.inStep.eq_of_key hmem hu hsurface)

/-- A timer that fires runs its request and no other. -/
theorem fire {w : Workshop κ} {t : Timer τ (κ × String)} (hmem : t ∈ s.armed)
    (hfirst : ∀ u ∈ s.armed, t.due ≤ u.due) : Traced delay (h ++ s.ran w t) (s.fire w t).2 := by
  obtain ⟨r, hr, rfl⟩ := ht.source t hmem
  set t := r.timer delay
  have hdebouncer : (s.fire w t).2.debouncer = s.debouncer.fire t := Session.run_debouncer ..
  have hold : ∀ u ∈ (s.fire w t).2.armed, u ∈ s.armed := fun u hu =>
    ((ht.mem_armed_fire hmem).mp hu).1
  have hnow : (s.fire w t).2.now = t.due := by
    rw [Session.now, hdebouncer]
    rfl
  have hran : ∀ result, Traced delay
      (h ++ [.ran r.id (r.time + delay) r.surface r.text result]) (s.fire w t).2 := fun result =>
    { inStep := hdebouncer ▸ ht.inStep.fire hmem
      delay_eq := by
        rw [hdebouncer]
        exact ht.delay_eq
      future := fun u hu => hnow ▸ hfirst u (hold u hu)
      ids := by
        rw [List.filterMap_append, hdebouncer]
        exact (congrArg _ (List.append_nil _)).trans ht.ids
      source := fun u hu => ht.source_append _ (hold u hu)
      runs := ht.runs_concat fun _ _ _ _ _ hrun => by
        cases hrun
        exact hmem
      fate := ht.fates (fun _ hr => by cases hr) fun _ _ hr' hfate =>
        ht.fate_fire hr hmem result hr' hfate }
  rw [Session.ran]
  cases (s.fire w t).1.outcome.report? with
  | none => exact hran _
  | some fault =>
    have hreport := (hran ((w.attempt r.surface r.text s.disk).map Prod.fst)).report fault
    rwa [List.append_assoc] at hreport

omit [DecidableEq κ] in
theorem wait {time : τ} (hdue : ∀ u ∈ s.armed, time ≤ u.due) :
    Traced delay h { s with debouncer := s.debouncer.wait time } :=
  ⟨ht.inStep.wait time, ht.delay_eq, hdue, ht.ids, ht.source, ht.runs, ht.fate⟩

end Traced

/-- Every history has its requests traced. -/
theorem traced_of_reaches {means : ℕ → Workshop κ} {now : τ} {shown : κ → Shown} {disk : Disk}
    (hdelay : ∀ time : τ, time ≤ time + delay)
    (hr : Reaches means (Session.opened delay now shown disk) h s) : Traced delay h s :=
  hr.induct (traced_opened delay now shown disk) (fun _ _ c ht => ht.call hdelay c)
    (fun _ _ _ hmem hfirst ht => ht.fire hmem hfirst) (fun _ _ _ _ hdue ht => ht.wait hdue)

end Traces

/-! ### Requests that are kept -/

/-- Nothing takes back what is asked for the surface before the request is run. -/
def Kept (r : Request τ κ) (later : List (Event τ κ)) : Prop :=
  ∀ before e after, later = before ++ e :: after → e.Withdraws r.surface →
    ∃ x ∈ before, x.isRunOf r.id

section Kept

variable [Add τ] {delay : τ} {r : Request τ κ} {later : List (Event τ κ)}
  {armed : List (Timer τ (κ × String))}

/-- A request that is kept waits or has been run, once; one that is not is never run. -/
theorem Fate.runs (h : Fate delay r later armed) :
    (Kept r later ∧ (r.timer delay ∈ armed ∧ later.filter (·.isRunOf r.id) = [] ∨
      ∃ result, later.filter (·.isRunOf r.id) =
        [.ran r.id (r.time + delay) r.surface r.text result])) ∨
    (¬ Kept r later ∧ later.filter (·.isRunOf r.id) = []) := by
  cases h with
  | waiting hkept hnot harmed =>
    refine Or.inl ⟨fun before e after hl hw => ?_, Or.inl ⟨harmed, List.filter_eq_nil_iff.mpr hnot⟩⟩
    exact absurd hw (hkept e (hl ▸ List.mem_append_right _ List.mem_cons_self))
  | @served before after result hlater hkept hbefore hafter hspent =>
    subst hlater
    refine Or.inl ⟨fun before' e after' hl hw => ?_, Or.inr ⟨result, ?_⟩⟩
    · -- what withdraws is not before the run, nor the run itself, so that it is behind it
      rcases List.append_eq_append_iff.mp hl with ⟨l, rfl, hr⟩ | ⟨l, rfl, hr⟩
      · cases l with
        | nil =>
          cases hr
          exact absurd hw (by simp [Event.Withdraws])
        | cons x l =>
          cases hr
          exact ⟨_, List.mem_append_right _ List.mem_cons_self, by simp [Event.isRunOf]⟩
      · cases l with
        | nil =>
          cases hr
          exact absurd hw (by simp [Event.Withdraws])
        | cons x l =>
          cases hr
          exact absurd hw (hkept e (List.mem_append_right _ List.mem_cons_self))
    · rw [List.filter_append, List.filter_eq_nil_iff.mpr hbefore,
        List.filter_cons_of_pos (by simp [Event.isRunOf]), List.filter_eq_nil_iff.mpr hafter]
      rfl
  | @withdrawn e he hw hnot hspent =>
    refine Or.inr ⟨fun hkept => ?_, List.filter_eq_nil_iff.mpr hnot⟩
    obtain ⟨before, after, hl⟩ := List.append_of_mem he
    obtain ⟨x, hx, hrun⟩ := hkept before e after hl hw
    exact hnot x (hl ▸ List.mem_append_left _ hx) hrun

end Kept

variable [DecidableEq κ] [AddCommMonoid τ] [LinearOrder τ] [IsOrderedAddMonoid τ]

/-- **What becomes of requests.**  In every history of a session, whatever its means:

* a request is run at most once, when its delay is over, with its surface and text; if all that is
  due by then has fired, it has been run exactly if it was kept, and one that was not kept is never
  run;
* requests have different numbers, every run is that of a request, and all that was due before now
  has fired;
* no surface has two timers; one that has a timer is pending, and no other; and the session is idle
  exactly if there is no timer. -/
theorem requests_run {delay now : τ} (hdelay : 0 ≤ delay) {means : ℕ → Workshop κ}
    {shown : κ → Shown} {disk : Disk} {h : List (Event τ κ)} {s : Session τ κ}
    (hr : Reaches means (Session.opened delay now shown disk) h s) :
    (∀ before r later, h = before ++ .asked r :: later →
      (h.filter (·.isRunOf r.id) = [] ∨ ∃ result, h.filter (·.isRunOf r.id) =
        [.ran r.id (r.time + delay) r.surface r.text result]) ∧
      (s.Past (r.time + delay) → ((∃ result, h.filter (·.isRunOf r.id) =
        [.ran r.id (r.time + delay) r.surface r.text result]) ↔ Kept r later)) ∧
      (¬ Kept r later → h.filter (·.isRunOf r.id) = [])) ∧
    (((h.filterMap Event.request?).map (·.id)).Nodup ∧
      (∀ id time v text result, .ran id time v text result ∈ h → ∃ r, .asked r ∈ h ∧
        id = r.id ∧ time = r.time + delay ∧ v = r.surface ∧ text = r.text) ∧
      ∀ time < s.now, s.Past time) ∧
    (∀ v, (s.armed.filter (·.task.1 = v)).length ≤ 1 ∧
      (s.debouncer.isPending v ↔ ∃ t ∈ s.armed, t.task.1 = v)) ∧
    (s.debouncer.isIdle ↔ s.armed = []) := by
  have ht : Traced delay h s := traced_of_reaches (fun _ => le_add_of_nonneg_right hdelay) hr
  refine ⟨fun before r later hh => ?_,
    ⟨ht.ids ▸ List.nodup_range, ht.runs, fun time hlt t hmem => hlt.trans_le (ht.future t hmem)⟩,
    fun v => ⟨ht.inStep.length_filter_le v, ht.inStep.isPending_iff⟩, ht.inStep.isIdle_iff⟩
  obtain ⟨hbefore, hfate⟩ := ht.fate before r later hh
  have hfilter : h.filter (·.isRunOf r.id) = later.filter (·.isRunOf r.id) := by
    rw [hh, List.filter_append, List.filter_eq_nil_iff.mpr hbefore, List.nil_append,
      List.filter_cons_of_neg (by simp [Event.isRunOf])]
  rw [hfilter]
  rcases hfate.runs with ⟨hkept, ⟨harmed, hnil⟩ | hone⟩ | ⟨hnot, hnil⟩
  · exact ⟨Or.inl hnil, fun hpast => absurd (hpast _ harmed) (lt_irrefl _),
      fun hnot => absurd hkept hnot⟩
  · exact ⟨Or.inr hone, fun _ => ⟨fun _ => hkept, fun _ => hone⟩, fun hnot => absurd hkept hnot⟩
  · refine ⟨Or.inl hnil, fun _ => ⟨fun ⟨_, hone⟩ => ?_, fun hkept => absurd hkept hnot⟩,
      fun _ => hnil⟩
    rw [hnil] at hone
    cases hone

/-- A pipeline that reads no description. -/
def unreadable : Workshop Unit where
  render _ := ⟨[], .error (.description ⟨.noDigraph, "", none⟩)⟩
  mount _ := Mount.memory

/-- A request is run when its delay is over, and its failure is answered by another. -/
theorem requests_run_answered : ∃ (h : List (Event ℕ Unit)) (s : Session ℕ Unit),
    Reaches (fun _ => unreadable) (Session.opened 2 0 (fun _ => {}) {}) h s ∧
    ∃ r later, h = .asked r :: later ∧ s.Past (r.time + 2) ∧ Kept r later ∧
      (∃ result, h.filter (·.isRunOf r.id) = [.ran r.id 2 () "a" result]) ∧
      (s.armed.filter (·.task.1 = ())).length = 1 := by
  let s₀ : Session ℕ Unit := Session.opened 2 0 (fun _ => {}) {}
  let s₁ := s₀.call (.schedule () "a")
  let t : Timer ℕ (Unit × String) := ⟨0, 2, ((), "a")⟩
  let s₂ := ((s₁.fire unreadable t).2.calls [.schedule () "b"]).2
  have harmed : s₁.armed = [t] := rfl
  have hasked : Reaches (fun _ => unreadable) s₀ ([] ++ [s₀.said (.schedule () "a")]) s₁ :=
    Reaches.refl.step (.call _)
  have hran := hasked.step (Step.fire (t := t) (harmed ▸ List.mem_cons_self) (harmed ▸ by simp)
    [.schedule () "b"] fun h => by cases h)
  have hpast : s₂.Past 2 := fun u hu => by
    obtain rfl : u = ⟨1, 4, ((), "b")⟩ := List.mem_singleton.mp hu
    decide
  obtain ⟨-, hkept, -⟩ := (requests_run (τ := ℕ) (Nat.zero_le 2) hran).1 [] ⟨0, 0, (), "a"⟩ _ rfl
  exact ⟨_, s₂, hran, ⟨0, 0, (), "a"⟩, _, rfl, hpast, (hkept hpast).mp ⟨_, rfl⟩, ⟨_, rfl⟩, rfl⟩

end Scrawl.Live
