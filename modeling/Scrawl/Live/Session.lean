import Scrawl.Config
import Scrawl.File.Swap
import Scrawl.Live.Debounce
import Scrawl.Pipeline
import Scrawl.Text.Utf8
/-!
# Scrawl.Live.Session — rendering onto surfaces as descriptions change

A session waits until the description of a surface has been left alone for a delay, then runs it
once. A scene is mounted on its surface in place of the last one.  A run that fails leaves its
surface alone and is reported; only a fault that a rendering is not expected to meet is passed on
instead.
-/

namespace Scrawl.Live

open File (Disk Path)

/-- Why a scene was not mounted. -/
inductive MountFault
  | disk (fault : File.Fault)
  /-- The surface takes no scene. -/
  | refused (reason : String)
  deriving DecidableEq

/-- The wording of the fault. -/
def MountFault.message : MountFault → String
  | disk fault => fault.message
  | refused reason => reason

/-- Whether the fault is one that a mount is expected to meet. -/
def MountFault.isExpected : MountFault → Bool
  | disk fault => fault.refusal.isSystem
  | refused _ => true

/-- How a surface takes a scene; a disk is left as it was when it does not. -/
abbrev Mount := Scene → Disk → Except MountFault Disk

namespace Mount

/-- A surface in memory takes every scene. -/
def memory : Mount := fun _ d => .ok d

/-- A surface that takes no scene. -/
def refusing (reason : String) : Mount := fun _ _ => .error (.refused reason)

/-- The text of a scene in a file ends with one line feed. -/
def fileText (s : Scene) : String :=
  let svg := s.toSvg
  if svg.endsWith "\n" then svg else svg ++ "\n"

/-- A surface in a file, which is swapped for each scene. -/
def file (target : Path) : Mount := fun s d =>
  let swap := File.swap {} d target (Text.Utf8.encode (fileText s))
  match swap.fault with
  | some fault => .error (.disk fault)
  | none => .ok (swap.disk d)

end Mount

/-- What a surface shows. -/
structure Shown where
  current : Option Scene := none
  /-- How many scenes have been mounted. -/
  generation : Nat := 0

/-- The means of a session: how a description is run, and how each surface takes a scene. -/
structure Workshop (κ : Type) where
  render : String → Run Scene
  mount : κ → Mount

/-- What a run came to. -/
inductive Outcome
  | mounted (scene : Scene)
  | notRendered (code : ErrorCode) (fault : PipelineFault)
  | notMounted (fault : MountFault)
  /-- The fault of the run is passed on. -/
  | escaped (fault : PipelineFault)
  /-- The fault of the mount is passed on. -/
  | mountEscaped (fault : MountFault)

/-- How grave a message is. -/
inductive Level
  | debug
  | warning
  | error
  deriving DecidableEq

/-- The name of a level. -/
def Level.name : Level → String
  | debug => "DEBUG"
  | warning => "WARNING"
  | error => "ERROR"

namespace Outcome

/-- Whether the run failed and its failure is reported. -/
def isReported : Outcome → Bool
  | notRendered .. => true
  | notMounted _ => true
  | _ => false

/-- The beginning of the message about a scene that was not mounted. -/
def notMountedText : String := "failed to mount rendered scene: "

/-- The message about a run that failed. -/
def log? : Outcome → Option (Level × String)
  | mounted _ => none
  | notRendered .description fault =>
    some (.warning, "description not rendered: " ++ fault.message)
  | notRendered code fault =>
    some (.error, "render failed [" ++ code.name ++ "]: " ++ fault.message)
  | notMounted fault => some (.error, notMountedText ++ fault.message)
  | escaped _ => none
  | mountEscaped _ => none

end Outcome

/-- A run of a surface's description. -/
structure Ran (κ : Type) where
  surface : κ
  notes : List Note
  outcome : Outcome

/-- The state of a session. -/
structure Session (τ κ : Type) where
  debouncer : Debouncer τ κ String
  shown : κ → Shown := fun _ => {}
  disk : Disk := {}
  runs : Nat := 0

namespace Session

variable {τ κ : Type} [DecidableEq κ]

/-- The session with a scene mounted on a surface. -/
def mounted (s : Session τ κ) (surface : κ) (scene : Scene) (disk : Disk) : Session τ κ :=
  let next : Shown := ⟨some scene, (s.shown surface).generation + 1⟩
  { s with disk, shown := fun other => if other = surface then next else s.shown other }

/-- Runs a description for a surface. -/
def run (w : Workshop κ) (s : Session τ κ) (surface : κ) (text : String) :
    Ran κ × Session τ κ :=
  let r := w.render text
  let s := { s with runs := s.runs + 1 }
  match r.result with
  | .error fault =>
    match fault.code? with
    | some code => (⟨surface, r.notes, .notRendered code fault⟩, s)
    | none => (⟨surface, r.notes, .escaped fault⟩, s)
  | .ok scene =>
    match w.mount surface scene s.disk with
    | .error fault =>
      if fault.isExpected then (⟨surface, r.notes, .notMounted fault⟩, s)
      else (⟨surface, r.notes, .mountEscaped fault⟩, s)
    | .ok disk => (⟨surface, r.notes, .mounted scene⟩, s.mounted surface scene disk)

/-- Asks for a description to be shown on a surface. -/
def schedule [Add τ] (s : Session τ κ) (surface : κ) (text : String) : Session τ κ :=
  { s with debouncer := s.debouncer.schedule surface text }

/-- Takes back what is asked for a surface. -/
def cancel (s : Session τ κ) (surface : κ) : Session τ κ :=
  { s with debouncer := s.debouncer.cancel surface }

/-- Takes back all that is asked for. -/
def cancelAll (s : Session τ κ) : Session τ κ := { s with debouncer := s.debouncer.cancelAll }

/-- Runs what a timer that fires asks for. -/
def fire (w : Workshop κ) (s : Session τ κ) (t : Timer τ (κ × String)) : Ran κ × Session τ κ :=
  run w { s with debouncer := s.debouncer.fire t } t.task.1 t.task.2

omit [DecidableEq κ] in
/-- The timers that are armed. -/
def armed (s : Session τ κ) : List (Timer τ (κ × String)) := s.debouncer.timers.armed

/-- A run leaves the requests alone. -/
theorem run_debouncer (w : Workshop κ) (s : Session τ κ) (surface : κ) (text : String) :
    (run w s surface text).2.debouncer = s.debouncer := by
  unfold run mounted
  dsimp only
  split
  · split <;> rfl
  · split
    · split <;> rfl
    · rfl

/-- Fewer timers are armed after one has fired. -/
theorem fire_armed_length_lt (w : Workshop κ) {s : Session τ κ} {t : Timer τ (κ × String)}
    (h : t ∈ s.armed) : (fire w s t).2.armed.length < s.armed.length := by
  unfold fire armed
  rw [run_debouncer]
  exact Timers.fire_length_lt h

variable [LT τ] [DecidableLT τ] [LE τ] [DecidableLE τ]

/-- Lets the clock run until a time: runs in order all that is due by then. -/
def advance (w : Workshop κ) (limit : τ) (s : Session τ κ) : List (Ran κ) × Session τ κ :=
  match _h : s.debouncer.timers.next? limit with
  | none => ([], { s with debouncer := s.debouncer.wait limit })
  | some t =>
    let next := fire w s t
    let (runs, last) := advance w limit next.2
    (next.1 :: runs, last)
termination_by s.armed.length
decreasing_by exact fire_armed_length_lt w (Timers.next?_mem _h)

omit [LE τ] [DecidableLE τ] in
/-- Runs in order all that is asked for, whenever it is due. -/
def finish (w : Workshop κ) (s : Session τ κ) : List (Ran κ) × Session τ κ :=
  match _h : Timers.earliest s.armed with
  | none => ([], s)
  | some t =>
    let next := fire w s t
    let (runs, last) := finish w next.2
    (next.1 :: runs, last)
termination_by s.armed.length
decreasing_by exact fire_armed_length_lt w (Timers.earliest_mem _h)

end Session

/-- Why a session does not start. -/
inductive SessionFault
  | negativeDelay (delay : Float)

/-- The wording of the fault. -/
def SessionFault.message : SessionFault → String
  | negativeDelay delay => (ConfigFault.negativeDelay delay).message

/-- A session at time zero. -/
def Session.start? {κ : Type} (delay : Float) (disk : Disk) :
    Except SessionFault (Session Float κ) :=
  if delay < 0.0 then .error (.negativeDelay delay)
  else .ok { debouncer := Debouncer.start delay 0.0, disk }

end Scrawl.Live
