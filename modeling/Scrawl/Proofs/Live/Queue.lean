import Mathlib.Data.List.Nodup
import Mathlib.Order.Lattice
import Scrawl.Live.Debounce

/-!
# Scrawl.Proofs.Live.Queue — pending requests and armed timers

A debouncer knows its pending requests by key, and the clock knows their timers.  `InStep` says that
the two lists are one, with one timer for each key; every operation keeps it.

* `Timers.next?_first`, `Timers.next?_eq_none`: the timer that fires next until a time is the first
  to be due, and if there is none, all are due later.
* `InStep.armed_cancel`, `armed_cancelAll`, `InStep.armed_schedule`, `InStep.armed_fire`: the timers
  that are armed behind each operation.
* `InStep.cancel`, `InStep.cancelAll`, `InStep.schedule`, `InStep.fire`, `InStep.wait`: each of them
  keeps the lists in step.
* `InStep.isPending_iff`, `InStep.isIdle_iff`: what a debouncer says of its pending requests is so.
-/

namespace Scrawl.Live

/-! ### The timer that fires next -/

namespace Timers

variable {τ π : Type} [LinearOrder τ]

/-- The first so far is due no later than where the search began and than all that it has passed. -/
theorem foldl_first_le (rest : List (Timer τ π)) (t : Timer τ π) : ∀ u ∈ t :: rest,
    (rest.foldl (fun first u => if u.due < first.due then u else first) t).due ≤ u.due := by
  induction rest generalizing t with
  | nil => simp
  | cons v rest ih =>
    rw [List.foldl_cons]
    have hstart : (if v.due < t.due then v else t).due ≤ t.due ∧
        (if v.due < t.due then v else t).due ≤ v.due := by
      split_ifs with hv
      · exact ⟨hv.le, le_refl _⟩
      · exact ⟨le_refl _, not_lt.mp hv⟩
    have hfirst := ih (if v.due < t.due then v else t) _ List.mem_cons_self
    intro u hu
    rcases List.mem_cons.mp hu with rfl | hu
    · exact hfirst.trans hstart.1
    · rcases List.mem_cons.mp hu with rfl | hu
      · exact hfirst.trans hstart.2
      · exact ih _ u (List.mem_cons_of_mem _ hu)

theorem earliest_le {ts : List (Timer τ π)} {t u : Timer τ π} (h : earliest ts = some t)
    (hu : u ∈ ts) : t.due ≤ u.due := by
  cases ts with
  | nil => cases h
  | cons v rest =>
    obtain rfl := Option.some.inj h
    exact foldl_first_le rest v u hu

/-- The timer that fires next is due by then, and no timer is due before it. -/
theorem next?_first {q : Timers τ π} {limit : τ} {t : Timer τ π} (h : q.next? limit = some t) :
    t.due ≤ limit ∧ ∀ u ∈ q.armed, t.due ≤ u.due := by
  have hlimit : t.due ≤ limit := by simpa using (List.mem_filter.mp (earliest_mem h)).2
  refine ⟨hlimit, fun u hu => ?_⟩
  rcases le_or_gt u.due limit with hle | hlt
  · exact earliest_le h (List.mem_filter.mpr ⟨hu, by simpa using hle⟩)
  · exact hlimit.trans hlt.le

theorem next?_eq_none {q : Timers τ π} {limit : τ} (h : q.next? limit = none) :
    ∀ u ∈ q.armed, limit < u.due := by
  intro u hu
  have hnil : q.armed.filter (fun t => decide (t.due ≤ limit)) = [] := by
    unfold next? at h
    cases hf : q.armed.filter (fun t => decide (t.due ≤ limit)) with
    | nil => rfl
    | cons t ts =>
      rw [hf] at h
      cases h
  have := List.filter_eq_nil_iff.mp hnil u hu
  simpa using this

end Timers

variable {τ κ ρ : Type}

namespace Debouncer

/-- The pending requests are those of the armed timers, in order, and no two timers share a key or a
number. -/
structure InStep (d : Debouncer τ κ ρ) : Prop where
  pending : d.pending = d.timers.armed.map fun t => (t.task.1, t.id)
  keys : (d.timers.armed.map (·.task.1)).Nodup
  ids : (d.timers.armed.map (·.id)).Nodup
  fresh : ∀ t ∈ d.timers.armed, t.id < d.timers.count

section

variable {d : Debouncer τ κ ρ} {t u : Timer τ (κ × ρ)} {key : κ}

theorem inStep_start (delay now : τ) : (start delay now : Debouncer τ κ ρ).InStep :=
  ⟨rfl, List.nodup_nil, List.nodup_nil, fun _ h => absurd h List.not_mem_nil⟩

theorem InStep.eq_of_key (h : d.InStep) (ht : t ∈ d.timers.armed) (hu : u ∈ d.timers.armed)
    (hk : u.task.1 = t.task.1) : u = t :=
  List.inj_on_of_nodup_map h.keys hu ht hk

theorem InStep.eq_of_id (h : d.InStep) (ht : t ∈ d.timers.armed) (hu : u ∈ d.timers.armed)
    (hi : u.id = t.id) : u = t :=
  List.inj_on_of_nodup_map h.ids hu ht hi

/-- No request is pending exactly if no timer is armed. -/
theorem InStep.isIdle_iff (h : d.InStep) : d.isIdle ↔ d.timers.armed = [] := by
  rw [isIdle, h.pending, List.isEmpty_iff, List.map_eq_nil_iff]

/-! ### Operations on all keys -/

/-- To disarm timers one after the other is to leave those of other numbers. -/
theorem foldl_disarm {π : Type} (l : List (κ × ℕ)) (q : Timers τ π) :
    l.foldl (fun q p => q.disarm p.2) q =
      { q with armed := q.armed.filter fun t => t.id ∉ l.map Prod.snd } := by
  induction l generalizing q with
  | nil => simp
  | cons p l ih =>
    rw [List.foldl_cons, ih, Timers.disarm]
    simp only [List.filter_filter]
    congr 1
    refine List.filter_congr fun t _ => ?_
    by_cases hp : t.id = p.2
    · simp [hp]
    · rw [bne_iff_ne.mpr hp, Bool.and_true, List.map_cons]
      simp only [List.mem_cons, hp, false_or]

theorem cancelAll_timers (d : Debouncer τ κ ρ) : d.cancelAll.timers =
    { d.timers with
      armed := d.timers.armed.filter fun t => t.id ∉ d.pending.map Prod.snd } :=
  foldl_disarm d.pending d.timers

/-- Without any request no timer is armed. -/
theorem InStep.armed_cancelAll (h : d.InStep) : d.cancelAll.timers.armed = [] := by
  rw [cancelAll_timers, h.pending]
  refine List.filter_eq_nil_iff.mpr fun t ht => ?_
  simpa using ⟨t, ht, rfl⟩

theorem InStep.cancelAll (h : d.InStep) : d.cancelAll.InStep := by
  have ha := h.armed_cancelAll
  exact ⟨by rw [ha]; rfl, by simp [ha], by simp [ha], by simp [ha]⟩

theorem InStep.wait (h : d.InStep) (now : τ) : (d.wait now).InStep :=
  ⟨h.pending, h.keys, h.ids, h.fresh⟩

/-! ### What is known of a key -/

variable [DecidableEq κ]

namespace InStep

variable (h : d.InStep)
include h

/-- To disarm the timer of a number is to disarm that of its key. -/
theorem filter_id (ht : t ∈ d.timers.armed) :
    d.timers.armed.filter (·.id != t.id) = d.timers.armed.filter (·.task.1 != t.task.1) := by
  refine List.filter_congr fun u hu => ?_
  by_cases hut : u = t
  · rw [hut, bne_self_eq_false, bne_self_eq_false]
  · have hi : u.id ≠ t.id := fun hi => hut (h.eq_of_id ht hu hi)
    have hk : u.task.1 ≠ t.task.1 := fun hk => hut (h.eq_of_key ht hu hk)
    rw [bne_iff_ne.mpr hi, bne_iff_ne.mpr hk]

/-- What is known of the request of a key is the number of its timer. -/
theorem lookup_eq_some {id : ℕ} :
    d.pending.lookup key = some id ↔ ∃ t ∈ d.timers.armed, t.task.1 = key ∧ t.id = id := by
  rw [h.pending, List.lookup_eq_some_iff]
  constructor
  · rintro ⟨l₁, l₂, hl, -⟩
    have hmem : (key, id) ∈ d.timers.armed.map fun t => (t.task.1, t.id) := by
      rw [hl]
      simp
    obtain ⟨t, ht, he⟩ := List.mem_map.mp hmem
    exact ⟨t, ht, congrArg Prod.fst he, congrArg Prod.snd he⟩
  · rintro ⟨t, ht, rfl, rfl⟩
    obtain ⟨l₁, l₂, hl⟩ := List.append_of_mem ht
    refine ⟨l₁.map fun t => (t.task.1, t.id), l₂.map fun t => (t.task.1, t.id), by simp [hl], ?_⟩
    have hkeys := h.keys
    rw [hl, List.map_append, List.map_cons, List.nodup_middle, List.nodup_cons] at hkeys
    intro p hp
    obtain ⟨u, hu, rfl⟩ := List.mem_map.mp hp
    have hne : t.task.1 ≠ u.task.1 := fun he =>
      hkeys.1 (List.mem_append_left _ (List.mem_map.mpr ⟨u, hu, he.symm⟩))
    simpa using hne

theorem lookup_eq_none :
    d.pending.lookup key = none ↔ ∀ t ∈ d.timers.armed, t.task.1 ≠ key := by
  rw [Option.eq_none_iff_forall_not_mem]
  constructor
  · intro hnone t ht hk
    exact hnone t.id (h.lookup_eq_some.mpr ⟨t, ht, hk, rfl⟩)
  · intro hne id hid
    obtain ⟨t, ht, hk, -⟩ := h.lookup_eq_some.mp hid
    exact hne t ht hk

/-- A key has a pending request exactly if a timer is armed for it. -/
theorem isPending_iff : d.isPending key ↔ ∃ t ∈ d.timers.armed, t.task.1 = key := by
  rw [isPending, Option.isSome_iff_exists]
  constructor
  · rintro ⟨id, hid⟩
    obtain ⟨t, ht, hk, -⟩ := h.lookup_eq_some.mp hid
    exact ⟨t, ht, hk⟩
  · rintro ⟨t, ht, hk⟩
    exact ⟨t.id, h.lookup_eq_some.mpr ⟨t, ht, hk, rfl⟩⟩

/-- At most one timer is armed for a key. -/
theorem length_filter_le (key : κ) :
    (d.timers.armed.filter (·.task.1 = key)).length ≤ 1 := by
  have hcount := List.nodup_iff_count_le_one.mp h.keys key
  rwa [List.count, List.countP_map, List.countP_eq_length_filter,
    List.filter_congr (q := fun t => decide (t.task.1 = key)) fun t _ => by
      simp [beq_eq_decide]] at hcount

/-! ### Timers behind an operation on a key -/

/-- A key that is taken back loses its timer. -/
theorem armed_cancel (key : κ) :
    (d.cancel key).timers.armed = d.timers.armed.filter (·.task.1 != key) := by
  unfold Debouncer.cancel
  split
  · next hnone =>
    refine (List.filter_eq_self.mpr fun t ht => ?_).symm
    simpa using h.lookup_eq_none.mp hnone t ht
  · next id hid =>
    obtain ⟨t, ht, rfl, rfl⟩ := h.lookup_eq_some.mp hid
    exact h.filter_id ht

theorem pending_cancel (key : κ) :
    (d.cancel key).pending = d.pending.filter (·.1 != key) := by
  unfold Debouncer.cancel
  split
  · next hnone =>
    refine (List.filter_eq_self.mpr fun p hp => ?_).symm
    rw [h.pending] at hp
    obtain ⟨t, ht, rfl⟩ := List.mem_map.mp hp
    simpa using h.lookup_eq_none.mp hnone t ht
  · rfl

/-- The timer that fires is spent, and no other. -/
theorem armed_fire [LT τ] [DecidableLT τ] (ht : t ∈ d.timers.armed) :
    (d.fire t).timers.armed = d.timers.armed.filter (·.task.1 != t.task.1) := h.filter_id ht

end InStep

theorem count_cancel (d : Debouncer τ κ ρ) (key : κ) :
    (d.cancel key).timers.count = d.timers.count := by
  unfold cancel
  split <;> rfl

theorem now_cancel (d : Debouncer τ κ ρ) (key : κ) :
    (d.cancel key).timers.now = d.timers.now := by
  unfold cancel
  split <;> rfl

theorem delay_cancel (d : Debouncer τ κ ρ) (key : κ) : (d.cancel key).delay = d.delay := by
  unfold cancel
  split <;> rfl

/-- A new timer is armed behind those of other keys. -/
theorem InStep.armed_schedule [Add τ] (h : d.InStep) (key : κ) (request : ρ) :
    (d.schedule key request).timers.armed = d.timers.armed.filter (·.task.1 != key) ++
      [⟨d.timers.count, d.timers.now + d.delay, (key, request)⟩] := by
  rw [← h.armed_cancel key, ← count_cancel d key, ← now_cancel d key, ← delay_cancel d key]
  rfl

/-! ### Lists in step -/

/-- The lists stay in step where a key is taken from both. -/
theorem InStep.without (h : d.InStep) {d' : Debouncer τ κ ρ}
    (hp : d'.pending = d.pending.filter (·.1 != key))
    (ha : d'.timers.armed = d.timers.armed.filter (·.task.1 != key))
    (hc : d'.timers.count = d.timers.count) : d'.InStep := by
  have hsub : d'.timers.armed.Sublist d.timers.armed := by
    rw [ha]
    exact List.filter_sublist
  refine ⟨?_, h.keys.sublist (hsub.map _), h.ids.sublist (hsub.map _), fun t ht => ?_⟩
  · rw [hp, ha, h.pending, List.filter_map]
    rfl
  · rw [hc]
    exact h.fresh t (hsub.subset ht)

theorem InStep.cancel (h : d.InStep) (key : κ) : (d.cancel key).InStep :=
  h.without (h.pending_cancel key) (h.armed_cancel key) (count_cancel d key)

theorem InStep.fire [LT τ] [DecidableLT τ] (h : d.InStep) (ht : t ∈ d.timers.armed) :
    (d.fire t).InStep :=
  h.without rfl (h.armed_fire ht) rfl

theorem InStep.schedule [Add τ] (h : d.InStep) (key : κ) (request : ρ) :
    (d.schedule key request).InStep := by
  have hc := h.cancel key
  have hother : ∀ t ∈ (d.cancel key).timers.armed, t.task.1 ≠ key := by
    intro t ht
    rw [h.armed_cancel, List.mem_filter] at ht
    simpa using ht.2
  have ha : (d.schedule key request).timers.armed = (d.cancel key).timers.armed ++
      [⟨(d.cancel key).timers.count, (d.cancel key).timers.now + (d.cancel key).delay,
        (key, request)⟩] := rfl
  refine ⟨?_, ?_, ?_, ?_⟩
  · rw [ha, List.map_append, ← hc.pending]
    rfl
  · rw [ha, List.map_append, List.nodup_append]
    refine ⟨hc.keys, List.nodup_singleton _, fun k hk k' hk' => ?_⟩
    obtain ⟨t, ht, rfl⟩ := List.mem_map.mp hk
    obtain rfl := List.mem_singleton.mp hk'
    exact hother t ht
  · rw [ha, List.map_append, List.nodup_append]
    refine ⟨hc.ids, List.nodup_singleton _, fun i hi i' hi' => ?_⟩
    obtain ⟨t, ht, rfl⟩ := List.mem_map.mp hi
    obtain rfl := List.mem_singleton.mp hi'
    exact Nat.ne_of_lt (hc.fresh t ht)
  · rw [ha]
    intro t ht
    rcases List.mem_append.mp ht with ht | ht
    · exact Nat.lt_succ_of_lt (hc.fresh t ht)
    · obtain rfl := List.mem_singleton.mp ht
      exact Nat.lt_succ_self _

end

end Debouncer

end Scrawl.Live
