import Scrawl.Live.Session
import Scrawl.Proofs.Live.Queue

/-!
# Scrawl.Proofs.Live.History — what happens to a session, step by step

A session is called from outside, its timers fire in the order of their due times, each at its due
time, and the clock may run on to a time that no armed timer is due before.  A run that fails is
reported, and who it is reported to may call the session again, then and there.  The pipeline and
the surfaces may be others at each run: `means n` are those of the run behind `n` others.

* `Workshop.attempt`: what a run comes to by its means alone.
* `Step`, `Reaches`: the steps of a session, and the histories and states that they reach.
* `Reaches.induct`: what calls, firings and waits keep, whole histories keep.
* `reaches_advance`: to let the clock run until a time is such a history, and nothing that is due by
  then is left.
-/

namespace Scrawl.Live

open File (Disk)

variable {τ κ : Type}

/-! ### Calls and runs -/

/-- What may be asked of a session. -/
inductive Call (κ : Type)
  | schedule (surface : κ) (text : String)
  | cancel (surface : κ)
  | cancelAll

/-- What a run may raise. -/
inductive RunFault
  | pipeline (fault : PipelineFault)
  | mount (fault : MountFault)

/-- What a run comes to by its means: the scene that is mounted, with the disk behind it, or what is
raised. -/
def Workshop.attempt (w : Workshop κ) (surface : κ) (text : String) (disk : Disk) :
    Except RunFault (Scene × Disk) :=
  match (w.render text).result with
  | .error fault => .error (.pipeline fault)
  | .ok scene =>
    match w.mount surface scene disk with
    | .error fault => .error (.mount fault)
    | .ok disk => .ok (scene, disk)

/-- What is reported of a run. -/
def Outcome.report? : Outcome → Option RunFault
  | notRendered _ fault => some (.pipeline fault)
  | notMounted fault => some (.mount fault)
  | _ => none

/-- Something is reported of the runs that fail and are not passed on. -/
theorem Outcome.report?_isSome (o : Outcome) : o.report?.isSome = o.isReported := by
  cases o <;> rfl

/-! ### Histories -/

/-- A request for a surface; its number is that of its timer. -/
structure Request (τ κ : Type) where
  id : ℕ
  time : τ
  surface : κ
  text : String

/-- What may happen. -/
inductive Event (τ κ : Type)
  | asked (request : Request τ κ)
  | withdrawn (surface : κ)
  | withdrawnAll
  /-- The run of the request of a number, with what it comes to by its means. -/
  | ran (id : ℕ) (time : τ) (surface : κ) (text : String) (result : Except RunFault Scene)
  | reported (fault : RunFault)

namespace Session

variable [DecidableEq κ]

/-- A session that nothing has happened to. -/
def opened (delay now : τ) (shown : κ → Shown) (disk : Disk) : Session τ κ :=
  { debouncer := Debouncer.start delay now, shown, disk }

omit [DecidableEq κ] in
/-- The time of the session. -/
def now (s : Session τ κ) : τ := s.debouncer.timers.now

/-- The session behind a call. -/
def call [Add τ] (s : Session τ κ) : Call κ → Session τ κ
  | .schedule surface text => s.schedule surface text
  | .cancel surface => s.cancel surface
  | .cancelAll => s.cancelAll

omit [DecidableEq κ] in
/-- What happens at a call. -/
def said (s : Session τ κ) : Call κ → Event τ κ
  | .schedule surface text => .asked ⟨s.debouncer.timers.count, s.now, surface, text⟩
  | .cancel surface => .withdrawn surface
  | .cancelAll => .withdrawnAll

/-- Calls one after the other: what happens, and the session behind them. -/
def calls [Add τ] (s : Session τ κ) : List (Call κ) → List (Event τ κ) × Session τ κ
  | [] => ([], s)
  | c :: cs =>
    let later := (s.call c).calls cs
    (s.said c :: later.1, later.2)

/-- What happens when a timer fires: a run, and the report of it if there is one. -/
def ran (w : Workshop κ) (s : Session τ κ) (t : Timer τ (κ × String)) : List (Event τ κ) :=
  .ran t.id t.due t.task.1 t.task.2 ((w.attempt t.task.1 t.task.2 s.disk).map Prod.fst) ::
    ((s.fire w t).1.outcome.report?.map Event.reported).toList

end Session

section Steps

variable [DecidableEq κ] [Add τ] [LinearOrder τ]

/-- One step of a session, with what happens in it. -/
inductive Step (means : ℕ → Workshop κ) (s : Session τ κ) :
    List (Event τ κ) → Session τ κ → Prop
  | call (c : Call κ) : Step means s [s.said c] (s.call c)
  /-- A timer that is due first fires; if its run is reported, calls may answer the report. -/
  | fire {t : Timer τ (κ × String)} (ht : t ∈ s.armed) (hfirst : ∀ u ∈ s.armed, t.due ≤ u.due)
      (answer : List (Call κ))
      (hanswer : (s.fire (means s.runs) t).1.outcome.isReported = false → answer = []) :
      Step means s (s.ran (means s.runs) t ++ ((s.fire (means s.runs) t).2.calls answer).1)
        ((s.fire (means s.runs) t).2.calls answer).2
  | wait {time : τ} (hnow : s.now ≤ time) (hdue : ∀ u ∈ s.armed, time ≤ u.due) :
      Step means s [] { s with debouncer := s.debouncer.wait time }

/-- The histories of a session, and the states they lead to. -/
inductive Reaches (means : ℕ → Workshop κ) (start : Session τ κ) :
    List (Event τ κ) → Session τ κ → Prop
  | refl : Reaches means start [] start
  | step {h events : List (Event τ κ)} {s s' : Session τ κ} (hs : Reaches means start h s)
      (hstep : Step means s events s') : Reaches means start (h ++ events) s'

variable {means : ℕ → Workshop κ} {start s : Session τ κ} {h : List (Event τ κ)}

omit [LinearOrder τ] in
theorem calls_induct {P : List (Event τ κ) → Session τ κ → Prop}
    (hcall : ∀ h s c, P h s → P (h ++ [s.said c]) (s.call c)) (cs : List (Call κ)) (hp : P h s) :
    P (h ++ (s.calls cs).1) (s.calls cs).2 := by
  induction cs generalizing h s with
  | nil => simpa [Session.calls] using hp
  | cons c cs ih =>
    have := ih (hcall h s c hp)
    rwa [List.append_assoc, List.singleton_append] at this

/-- What every call, firing and wait keeps is so behind every history. -/
theorem Reaches.induct {P : List (Event τ κ) → Session τ κ → Prop} (hstart : P [] start)
    (hcall : ∀ h s c, P h s → P (h ++ [s.said c]) (s.call c))
    (hfire : ∀ h s t, t ∈ s.armed → (∀ u ∈ s.armed, t.due ≤ u.due) → P h s →
      P (h ++ s.ran (means s.runs) t) (s.fire (means s.runs) t).2)
    (hwait : ∀ h s time, s.now ≤ time → (∀ u ∈ s.armed, time ≤ u.due) → P h s →
      P h { s with debouncer := s.debouncer.wait time })
    (hr : Reaches means start h s) : P h s := by
  induction hr with
  | refl => exact hstart
  | @step h _ s _ _ hstep ih =>
    cases hstep with
    | call c => exact hcall h s c ih
    | @fire t ht hfirst answer _ =>
      have := calls_induct hcall answer (hfire h s t ht hfirst ih)
      rwa [List.append_assoc] at this
    | @wait time hnow hdue =>
      rw [List.append_nil]
      exact hwait h s time hnow hdue ih

/-! ### The clock that runs -/

/-- All that is due by a time has fired. -/
def Session.Past (s : Session τ κ) (time : τ) : Prop := ∀ u ∈ s.armed, time < u.due

/-- The surface of a run. -/
def Event.runSurface? : Event τ κ → Option κ
  | .ran _ _ surface _ _ => some surface
  | _ => none

omit [Add τ] [LinearOrder τ] in
theorem runSurface?_ran (w : Workshop κ) (s : Session τ κ) (t : Timer τ (κ × String)) :
    (s.ran w t).filterMap Event.runSurface? = [(s.fire w t).1.surface] := by
  have hsurface : (s.fire w t).1.surface = t.task.1 := by
    unfold Session.fire Session.run
    dsimp only
    split
    · split <;> rfl
    · split
      · split <;> rfl
      · rfl
  rw [hsurface, Session.ran]
  cases (s.fire w t).1.outcome.report? <;> rfl

/-- **To let the clock run until a time is a history** of the session, with the same runs; all that
is due by then has fired. -/
theorem reaches_advance {w : Workshop κ} {limit : τ} (hr : Reaches (fun _ => w) start h s)
    (hnow : s.now ≤ limit) : ∃ events,
      Reaches (fun _ => w) start (h ++ events) (s.advance w limit).2 ∧
      events.filterMap Event.runSurface? = (s.advance w limit).1.map (·.surface) ∧
      (s.advance w limit).2.Past limit ∧ (s.advance w limit).2.now = limit := by
  induction hn : s.armed.length using Nat.strongRecOn generalizing s h with
  | _ n ih =>
    rw [Session.advance]
    split
    · next hnone =>
      have hpast : s.Past limit := Timers.next?_eq_none hnone
      exact ⟨[], hr.step (.wait hnow fun u hu => (hpast u hu).le), rfl, hpast, rfl⟩
    · next t ht =>
      obtain ⟨hdue, hfirst⟩ := Timers.next?_first ht
      have hmem : t ∈ s.armed := Timers.next?_mem ht
      have hstep : Step (fun _ => w) s (s.ran w t ++ []) (s.fire w t).2 :=
        .fire hmem hfirst [] fun _ => rfl
      have hfire := hr.step hstep
      have hnow' : (s.fire w t).2.now = t.due := by
        rw [Session.now, Session.fire, Session.run_debouncer]
        rfl
      obtain ⟨events, hreach, hruns, hpast, hlimit⟩ := ih _
        (hn ▸ Session.fire_armed_length_lt w hmem) hfire (hnow' ▸ hdue) rfl
      rw [List.append_nil, List.append_assoc] at hreach
      refine ⟨s.ran w t ++ events, hreach, ?_, hpast, hlimit⟩
      rw [List.filterMap_append, runSurface?_ran, hruns]
      rfl

end Steps

end Scrawl.Live
