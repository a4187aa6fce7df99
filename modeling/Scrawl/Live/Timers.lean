/-!
# Scrawl.Live.Timers — a clock with timers

A timer is armed for a delay from now and fires once, unless it is disarmed before.  Timers fire in
the order of their due times, and those of one time in the order of arming.  Time may be of any type
that can be added and compared; a due time that compares with none never comes.
-/

namespace Scrawl.Live

/-- A timer that is armed. -/
structure Timer (τ π : Type) where
  /-- Its number in the order of arming. -/
  id : Nat
  due : τ
  task : π

/-- A clock, and its armed timers in the order of arming. -/
structure Timers (τ π : Type) where
  now : τ
  /-- How many timers have been armed so far. -/
  count : Nat := 0
  armed : List (Timer τ π) := []

namespace Timers

variable {τ π : Type}

/-- Arms a timer; its number is the count so far. -/
def arm [Add τ] (q : Timers τ π) (delay : τ) (task : π) : Timers τ π :=
  { q with count := q.count + 1, armed := q.armed ++ [⟨q.count, q.now + delay, task⟩] }

/-- Disarms the timer of a number. -/
def disarm (q : Timers τ π) (id : Nat) : Timers τ π :=
  { q with armed := q.armed.filter fun t => t.id != id }

/-- The first of the earliest timers. -/
def earliest [LT τ] [DecidableLT τ] : List (Timer τ π) → Option (Timer τ π)
  | [] => none
  | t :: rest => some (rest.foldl (fun first u => if u.due < first.due then u else first) t)

variable [LT τ] [DecidableLT τ] [LE τ] [DecidableLE τ]

/-- The timer that fires next until a time. -/
def next? (q : Timers τ π) (limit : τ) : Option (Timer τ π) :=
  earliest (q.armed.filter fun t => decide (t.due ≤ limit))

/-- The clock when a timer fires: it stands at the due time, and the timer is spent. -/
def fire (q : Timers τ π) (t : Timer τ π) : Timers τ π := { q.disarm t.id with now := t.due }

omit [LE τ] [DecidableLE τ] in
/-- The earliest timer is one of the timers. -/
theorem earliest_mem {ts : List (Timer τ π)} {t : Timer τ π} (h : earliest ts = some t) :
    t ∈ ts := by
  match ts, h with
  | u :: rest, h =>
    obtain rfl := Option.some.inj h
    refine List.foldlRecOn rest _ (motive := fun first => first ∈ u :: rest) (by simp) ?_
    intro first hf v hv
    split
    · exact List.mem_cons_of_mem u hv
    · exact hf

/-- A timer that fires next is armed. -/
theorem next?_mem {q : Timers τ π} {limit : τ} {t : Timer τ π} (h : q.next? limit = some t) :
    t ∈ q.armed :=
  (List.mem_filter.1 (earliest_mem h)).1

omit [LT τ] [DecidableLT τ] [LE τ] [DecidableLE τ] in
/-- Fewer timers are armed after one has fired. -/
theorem fire_length_lt {q : Timers τ π} {t : Timer τ π} (h : t ∈ q.armed) :
    (q.fire t).armed.length < q.armed.length := by
  refine Nat.lt_of_le_of_ne (List.length_filter_le ..) fun hl => ?_
  have := List.length_filter_eq_length_iff.1 hl t h
  simp at this

end Timers

end Scrawl.Live
