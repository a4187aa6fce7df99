import Scrawl.Live.Timers
/-!
# Scrawl.Live.Debounce — one pending request for each key

A request waits for a delay, and a later request for the same key takes its place.  The pending
requests are known by the numbers of their timers; the timers themselves stand on the clock.
-/

namespace Scrawl.Live

/-- Requests that wait, by key. -/
structure Debouncer (τ κ ρ : Type) where
  delay : τ
  timers : Timers τ (κ × ρ)
  /-- The timer of each key with a pending request. -/
  pending : List (κ × Nat) := []

namespace Debouncer

variable {τ κ ρ : Type} [DecidableEq κ]

/-- A debouncer at a time. -/
def start (delay now : τ) : Debouncer τ κ ρ := { delay, timers := { now } }

/-- Takes back the pending request of a key. -/
def cancel (d : Debouncer τ κ ρ) (key : κ) : Debouncer τ κ ρ :=
  match d.pending.lookup key with
  | none => d
  | some id =>
    { d with
      timers := d.timers.disarm id
      pending := d.pending.filter fun p => p.1 != key }

/-- Takes back all pending requests. -/
def cancelAll (d : Debouncer τ κ ρ) : Debouncer τ κ ρ :=
  { d with
    timers := d.pending.foldl (fun q p => q.disarm p.2) d.timers
    pending := [] }

/-- Makes a request for a key, in place of the one that is pending. -/
def schedule [Add τ] (d : Debouncer τ κ ρ) (key : κ) (request : ρ) : Debouncer τ κ ρ :=
  let rest := d.cancel key
  { rest with
    timers := rest.timers.arm rest.delay (key, request)
    pending := rest.pending ++ [(key, rest.timers.count)] }

/-- Whether a key has a pending request. -/
def isPending (d : Debouncer τ κ ρ) (key : κ) : Bool := (d.pending.lookup key).isSome

/-- Whether no request is pending. -/
def isIdle (d : Debouncer τ κ ρ) : Bool := d.pending.isEmpty

/-- The debouncer when a timer fires: its key has no pending request any more. -/
def fire (d : Debouncer τ κ ρ) (t : Timer τ (κ × ρ)) : Debouncer τ κ ρ :=
  { d with
    timers := d.timers.fire t
    pending := d.pending.filter fun p => p.1 != t.task.1 }

/-- The debouncer at a later time that no due timer lies before. -/
def wait (d : Debouncer τ κ ρ) (now : τ) : Debouncer τ κ ρ :=
  { d with timers := { d.timers with now } }

end Debouncer

end Scrawl.Live
