import Mathlib
import Scrawl.Layered.Acyclic
import Scrawl.Proofs.Layered.Walk

/-!
# Scrawl.Proofs.Layered.Search — what the depth-first search keeps, and that it ends

`Step` has one rule for each thing that a step of the search can do, and every proof about the
search goes by these rules.  `order` lists the open nodes, outermost first, then the closed nodes,
latest first.  A step only inserts nodes into it, so what has been found out about the order of two
nodes stays true; at the end it is the list of all nodes by decreasing time of closing.

* `Search.Inv`: the stack is a path of nodes not yet closed, every arc from a seen node waits or has
  been followed, an arc followed leads forward in `order` unless it is in `back`, and an arc in
  `back` leads backward and closes a cycle (`inv_of_step`).
* `Search.potential`: falls by one in every step, so that the fuel of `backEdges` is enough.
* `search_finished`: the run ends with nothing left to do, in a state with the invariant.
-/

namespace Scrawl.Layered

open Relation

variable {n : ℕ} {arcs : List (Arc n)}

theorem mem_leaving {a : Arc n} {v : Fin n} : a ∈ Arc.leaving arcs v ↔ a ∈ arcs ∧ a.source = v := by
  simp [Arc.leaving]

namespace Search

/-! ### Steps -/

/-- The open nodes, the deepest first. -/
def path (s : Search n) : List (Fin n) := s.stack.map (·.node)

/-- The open nodes, outermost first, then the closed ones, latest first. -/
def order (s : Search n) : List (Fin n) := s.path.reverse ++ s.closed

theorem order_push {v : Fin n} {todo : List (Arc n)} {roots closed : List (Fin n)}
    {stack : List (Frame n)} {back : List ℕ} :
    (⟨roots, ⟨v, todo⟩ :: stack, closed, back⟩ : Search n).order =
      (stack.map (·.node)).reverse ++ v :: closed := by
  simp [order, path]

/-- What a step can do. -/
inductive Step (arcs : List (Arc n)) : Search n → Search n → Prop
  | dropRoot {v : Fin n} {roots closed : List (Fin n)} {back : List ℕ} (hv : v ∈ closed) :
      Step arcs ⟨v :: roots, [], closed, back⟩ ⟨roots, [], closed, back⟩
  | openRoot {v : Fin n} {roots closed : List (Fin n)} {back : List ℕ} (hv : v ∉ closed) :
      Step arcs ⟨v :: roots, [], closed, back⟩ ⟨roots, [⟨v, Arc.leaving arcs v⟩], closed, back⟩
  | close {v : Fin n} {roots closed : List (Fin n)} {stack : List (Frame n)} {back : List ℕ} :
      Step arcs ⟨roots, ⟨v, []⟩ :: stack, closed, back⟩ ⟨roots, stack, v :: closed, back⟩
  | turn {v : Fin n} {a : Arc n} {todo : List (Arc n)} {roots closed : List (Fin n)}
      {stack : List (Frame n)} {back : List ℕ}
      (ha : a.target ∈ v :: stack.map (·.node)) :
      Step arcs ⟨roots, ⟨v, a :: todo⟩ :: stack, closed, back⟩
        ⟨roots, ⟨v, todo⟩ :: stack, closed, a.edge :: back⟩
  | pass {v : Fin n} {a : Arc n} {todo : List (Arc n)} {roots closed : List (Fin n)}
      {stack : List (Frame n)} {back : List ℕ} (ha : a.target ∈ closed) :
      Step arcs ⟨roots, ⟨v, a :: todo⟩ :: stack, closed, back⟩
        ⟨roots, ⟨v, todo⟩ :: stack, closed, back⟩
  | descend {v : Fin n} {a : Arc n} {todo : List (Arc n)} {roots closed : List (Fin n)}
      {stack : List (Frame n)} {back : List ℕ}
      (ho : a.target ∉ v :: stack.map (·.node)) (hc : a.target ∉ closed) :
      Step arcs ⟨roots, ⟨v, a :: todo⟩ :: stack, closed, back⟩
        ⟨roots, ⟨a.target, Arc.leaving arcs a.target⟩ :: ⟨v, todo⟩ :: stack, closed, back⟩

theorem isOpen_iff {s : Search n} {v : Fin n} : s.isOpen v = true ↔ v ∈ s.path := by
  simp [isOpen, path, List.any_eq_true]

theorem enter_eq (s : Search n) (v : Fin n) :
    enter arcs s v = if v ∈ s.path ∨ v ∈ s.closed then s
      else { s with stack := ⟨v, Arc.leaving arcs v⟩ :: s.stack } := by
  simp only [enter, Bool.or_eq_true, isOpen_iff, List.contains_iff_mem]

theorem step_of_step? {s t : Search n} (h : s.step? arcs = some t) : Step arcs s t := by
  obtain ⟨roots, stack, closed, back⟩ := s
  match stack, h with
  | [], h =>
    match roots, h with
    | v :: roots, h =>
      simp only [step?, enter_eq, path, List.map_nil, List.not_mem_nil, false_or,
        Option.some.injEq] at h
      subst h
      split_ifs with hv
      · exact .dropRoot hv
      · exact .openRoot hv
  | ⟨v, []⟩ :: stack, h =>
    simp only [step?, Option.some.injEq] at h
    subst h
    exact .close
  | ⟨v, a :: todo⟩ :: stack, h =>
    simp only [step?, isOpen_iff, enter_eq, path, List.map_cons] at h
    split_ifs at h with ho hc
    · cases h
      exact .turn ho
    · cases h
      exact .pass (hc.resolve_left ho)
    · cases h
      exact .descend ho (fun h => hc (Or.inr h))

theorem finished_of_step? {s : Search n} (h : s.step? arcs = none) :
    s.roots = [] ∧ s.stack = [] := by
  obtain ⟨roots, stack, closed, back⟩ := s
  match stack, h with
  | [], h =>
    match roots, h with
    | [], _ => exact ⟨rfl, rfl⟩
    | v :: roots, h => simp [step?] at h
  | ⟨v, []⟩ :: stack, h => simp [step?] at h
  | ⟨v, a :: todo⟩ :: stack, h =>
    simp only [step?] at h
    split_ifs at h

/-! ### What a step keeps -/

/-- An arc that has been followed: it closed a cycle, or it leads forward in the order. -/
def Settled (s : Search n) (a : Arc n) : Prop := a.edge ∈ s.back ∨ Before s.order a.source a.target

/-- What holds of every state of the search. -/
structure Inv (arcs : List (Arc n)) (s : Search n) : Prop where
  nodup : s.order.Nodup
  /-- The open nodes are a path: each one was reached by an arc from the one below it. -/
  chain : List.IsChain (fun v u => Joins arcs u v) s.path
  todo : ∀ f ∈ s.stack, ∀ a ∈ f.todo, a ∈ arcs ∧ a.source = f.node
  /-- An arc from a node seen waits in its frame or has been followed. -/
  settled : ∀ a ∈ arcs, a.source ∈ s.order → (∃ f ∈ s.stack, a ∈ f.todo) ∨ s.Settled a
  backward : ∀ a ∈ arcs, a.edge ∈ s.back → a.isLoop = true ∨ Before s.order a.target a.source
  cyclic : ∀ a ∈ arcs, a.edge ∈ s.back → ReflTransGen (Joins arcs) a.target a.source
  covered : ∀ v, v ∈ s.roots ∨ v ∈ s.order

theorem Step.order_sublist {s t : Search n} (h : Step arcs s t) :
    List.Sublist s.order t.order := by
  cases h with
  | openRoot _ => simp [order, path]
  | descend _ _ => simp [order, path]
  | dropRoot _ | close | turn _ | pass _ => simp [order, path]

theorem Step.back_subset {s t : Search n} (h : Step arcs s t) : s.back ⊆ t.back := by
  cases h with
  | turn _ => exact List.subset_cons_self ..
  | dropRoot _ | openRoot _ | close | pass _ | descend _ _ => exact List.Subset.refl _

theorem Settled.mono {s t : Search n} {a : Arc n} (h : s.Settled a) (hst : Step arcs s t) :
    t.Settled a :=
  h.imp (hst.back_subset ·) (·.mono hst.order_sublist)

/-- From every open node a walk leads to the deepest one. -/
theorem walk_to_deepest {v u : Fin n} {below : List (Fin n)}
    (h : List.IsChain (fun v u => Joins arcs u v) (v :: below)) (hu : u ∈ v :: below) :
    ReflTransGen (Joins arcs) u v := by
  induction below generalizing v with
  | nil =>
    rw [List.mem_singleton.mp hu]
  | cons w below ih =>
    obtain ⟨hwv, h⟩ := List.isChain_cons_cons.mp h
    rcases List.mem_cons.mp hu with rfl | hu
    · exact .refl
    · exact (ih h hu).tail hwv

theorem Inv.nodup_of_step {s t : Search n} (hi : Inv arcs s) (h : Step arcs s t) :
    t.order.Nodup := by
  have hs := hi.nodup
  cases h with
  | openRoot hv => exact List.nodup_cons.mpr ⟨hv, hs⟩
  | close => rwa [order_push] at hs
  | descend ho hc =>
    rw [order_push]
    refine List.nodup_middle.mpr (List.nodup_cons.mpr ⟨fun hm => ?_, hs⟩)
    rcases List.mem_append.mp hm with hm | hm
    · exact ho (List.mem_reverse.mp hm)
    · exact hc hm
  | dropRoot _ | turn _ | pass _ => exact hs

theorem Inv.chain_of_step {s t : Search n} (hi : Inv arcs s) (h : Step arcs s t) :
    List.IsChain (fun v u => Joins arcs u v) t.path := by
  have hs := hi.chain
  cases h with
  | openRoot _ => exact List.isChain_singleton _
  | close => exact hs.tail
  | @descend v a todo =>
    obtain ⟨ha, hv⟩ := hi.todo _ List.mem_cons_self a List.mem_cons_self
    exact List.isChain_cons_cons.mpr ⟨⟨a, ha, hv, rfl⟩, hs⟩
  | dropRoot _ | turn _ | pass _ => exact hs

theorem Inv.todo_of_step {s t : Search n} (hi : Inv arcs s) (h : Step arcs s t) :
    ∀ f ∈ t.stack, ∀ a ∈ f.todo, a ∈ arcs ∧ a.source = f.node := by
  have hs := hi.todo
  have hnew : ∀ v, ∀ a ∈ Arc.leaving arcs v, a ∈ arcs ∧ a.source = v := fun v a => mem_leaving.mp
  cases h with
  | openRoot _ => simpa using hnew _
  | close => exact fun f hf => hs f (List.mem_cons_of_mem _ hf)
  | turn _ | pass _ =>
    obtain ⟨hv, hs⟩ := List.forall_mem_cons.mp hs
    exact List.forall_mem_cons.mpr ⟨fun b hb => hv b (List.mem_cons_of_mem _ hb), hs⟩
  | descend _ _ =>
    obtain ⟨hv, hs⟩ := List.forall_mem_cons.mp hs
    exact List.forall_mem_cons.mpr ⟨hnew _,
      List.forall_mem_cons.mpr ⟨fun b hb => hv b (List.mem_cons_of_mem _ hb), hs⟩⟩
  | dropRoot _ => exact hs

/-- Following the first arc of a frame leaves every other arc waiting where it was. -/
theorem waits_of_follow {v : Fin n} {a b : Arc n} {todo : List (Arc n)} {stack : List (Frame n)}
    (hb : ∃ f ∈ (⟨v, a :: todo⟩ : Frame n) :: stack, b ∈ f.todo) :
    b = a ∨ ∃ f ∈ (⟨v, todo⟩ : Frame n) :: stack, b ∈ f.todo := by
  obtain ⟨f, hf, hb⟩ := hb
  rcases List.mem_cons.mp hf with rfl | hf
  · rcases List.mem_cons.mp hb with rfl | hb
    · exact Or.inl rfl
    · exact Or.inr ⟨_, List.mem_cons_self, hb⟩
  · exact Or.inr ⟨f, List.mem_cons_of_mem _ hf, hb⟩

theorem Inv.settled_of_step {s t : Search n} (hi : Inv arcs s) (h : Step arcs s t) :
    ∀ a ∈ arcs, a.source ∈ t.order → (∃ f ∈ t.stack, a ∈ f.todo) ∨ t.Settled a := by
  intro b hb hs
  have hold : b.source ∈ s.order → (∃ f ∈ s.stack, b ∈ f.todo) ∨ t.Settled b :=
    fun hm => (hi.settled b hb hm).imp_right (·.mono h)
  cases h with
  | dropRoot _ => exact hold hs
  | @openRoot v =>
    rcases List.mem_cons.mp hs with hv | hs
    · exact Or.inl ⟨_, List.mem_cons_self, mem_leaving.mpr ⟨hb, hv⟩⟩
    · rcases hold hs with ⟨f, hf, -⟩ | hs
      · exact absurd hf List.not_mem_nil
      · exact Or.inr hs
  | close =>
    -- the frame that is left has no arc waiting
    rcases hold (by rwa [order_push]) with ⟨f, hf, hw⟩ | hs
    · rcases List.mem_cons.mp hf with rfl | hf
      · exact absurd hw List.not_mem_nil
      · exact Or.inl ⟨f, hf, hw⟩
    · exact Or.inr hs
  | turn ha =>
    rcases hold hs with hw | hs
    · rcases waits_of_follow hw with rfl | hw
      · exact Or.inr (Or.inl List.mem_cons_self)
      · exact Or.inl hw
    · exact Or.inr hs
  | @pass v a todo roots closed stack back ha =>
    rcases hold hs with hw | hs
    · rcases waits_of_follow hw with rfl | hw
      · have hv := (hi.todo _ List.mem_cons_self b List.mem_cons_self).2
        refine Or.inr (Or.inr (before_append ?_ ha))
        simp [path, hv]
      · exact Or.inl hw
    · exact Or.inr hs
  | @descend v a todo roots closed stack back ho hc =>
    -- all arcs of the node that is opened wait in its frame
    by_cases hv : b.source = a.target
    · exact Or.inl ⟨_, List.mem_cons_self, mem_leaving.mpr ⟨hb, hv⟩⟩
    have hs' : b.source ∈ (⟨roots, ⟨v, a :: todo⟩ :: stack, closed, back⟩ : Search n).order := by
      simpa [order_push, hv] using hs
    rcases hold hs' with hw | hs
    · rcases waits_of_follow hw with rfl | ⟨f, hf, hw⟩
      · have hv := (hi.todo _ List.mem_cons_self b List.mem_cons_self).2
        refine Or.inr (Or.inr ?_)
        rw [order_push]
        exact before_append (by simp [hv]) List.mem_cons_self
      · exact Or.inl ⟨f, List.mem_cons_of_mem _ hf, hw⟩
    · exact Or.inr hs

theorem Inv.backward_of_step {s t : Search n} (hd : (arcs.map (·.edge)).Nodup)
    (hi : Inv arcs s) (h : Step arcs s t) :
    ∀ a ∈ arcs, a.edge ∈ t.back → a.isLoop = true ∨ Before t.order a.target a.source := by
  intro b hb he
  have hold : b.edge ∈ s.back → b.isLoop = true ∨ Before t.order b.target b.source :=
    fun hm => (hi.backward b hb hm).imp_right (·.mono h.order_sublist)
  cases h with
  | @turn v a todo roots closed stack back ha =>
    rcases List.mem_cons.mp he with he | he
    · obtain ⟨hm, hv⟩ := hi.todo _ List.mem_cons_self a List.mem_cons_self
      -- edge numbers differ, so the arc turned in this step is `a`
      obtain rfl : b = a := List.inj_on_of_nodup_map hd hb hm he
      rcases List.mem_cons.mp ha with ht | ht
      · exact Or.inl (by simp [Arc.isLoop, ht, hv])
      · refine Or.inr ?_
        rw [order_push, hv]
        exact before_append (List.mem_reverse.mpr ht) List.mem_cons_self
    · exact hold he
  | dropRoot _ | openRoot _ | close | pass _ | descend _ _ => exact hold he

theorem Inv.cyclic_of_step {s t : Search n} (hd : (arcs.map (·.edge)).Nodup)
    (hi : Inv arcs s) (h : Step arcs s t) :
    ∀ a ∈ arcs, a.edge ∈ t.back → ReflTransGen (Joins arcs) a.target a.source := by
  intro b hb he
  cases h with
  | @turn v a todo roots closed stack back ha =>
    rcases List.mem_cons.mp he with he | he
    · obtain ⟨hm, hv⟩ := hi.todo _ List.mem_cons_self a List.mem_cons_self
      obtain rfl : b = a := List.inj_on_of_nodup_map hd hb hm he
      rw [hv]
      exact walk_to_deepest hi.chain ha
    · exact hi.cyclic b hb he
  | dropRoot _ | openRoot _ | close | pass _ | descend _ _ => exact hi.cyclic b hb he

theorem Inv.covered_of_step {s t : Search n} (hi : Inv arcs s) (h : Step arcs s t) :
    ∀ v, v ∈ t.roots ∨ v ∈ t.order := by
  intro u
  have hu := (hi.covered u).imp_right (h.order_sublist.subset ·)
  cases h with
  | dropRoot hv =>
    rcases hu with hu | hu
    · rcases List.mem_cons.mp hu with rfl | hu
      · exact Or.inr hv
      · exact Or.inl hu
    · exact Or.inr hu
  | openRoot hv =>
    rcases hu with hu | hu
    · rcases List.mem_cons.mp hu with rfl | hu
      · exact Or.inr List.mem_cons_self
      · exact Or.inl hu
    · exact Or.inr hu
  | close | turn _ | pass _ | descend _ _ => exact hu

/-- **A step keeps the invariant**, if no two arcs have the same edge number. -/
theorem inv_of_step {s t : Search n} (hd : (arcs.map (·.edge)).Nodup) (hi : Inv arcs s)
    (h : Step arcs s t) : Inv arcs t :=
  ⟨hi.nodup_of_step h, hi.chain_of_step h, hi.todo_of_step h, hi.settled_of_step h,
    hi.backward_of_step hd h, hi.cyclic_of_step hd h, hi.covered_of_step h⟩

theorem inv_start : Inv arcs { roots := List.finRange n } where
  nodup := List.nodup_nil
  chain := List.isChain_nil
  todo := by simp
  settled := by simp [order, path]
  backward := by simp
  cyclic := by simp
  covered v := Or.inl (List.mem_finRange v)

theorem inv_run (hd : (arcs.map (·.edge)).Nodup) :
    ∀ (fuel : ℕ) (s : Search n), Inv arcs s → Inv arcs (run arcs fuel s)
  | 0, _, hi => hi
  | fuel + 1, s, hi => by
    simp only [run]
    split
    · next t ht => exact inv_run hd fuel t (inv_of_step hd hi (step_of_step? ht))
    · exact hi

/-! ### The search ends -/

/-- What the nodes outside a list cost: each is closed once, and its arcs are followed. -/
def costOutside (arcs : List (Arc n)) (l : List (Fin n)) : ℕ :=
  ∑ v ∈ l.toFinsetᶜ, ((Arc.leaving arcs v).length + 1)

/-- The number of steps still to come. -/
def potential (arcs : List (Arc n)) (s : Search n) : ℕ :=
  s.roots.length + (s.stack.map fun f => f.todo.length + 1).sum + costOutside arcs s.order

theorem costOutside_insert (arcs : List (Arc n)) {l l' : List (Fin n)} {v : Fin n} (hv : v ∉ l)
    (h : ∀ u, u ∈ l' ↔ u = v ∨ u ∈ l) :
    costOutside arcs l = (Arc.leaving arcs v).length + 1 + costOutside arcs l' := by
  have he : l'.toFinsetᶜ = (l.toFinsetᶜ).erase v := by
    ext u
    simp [h]
  rw [costOutside, costOutside, he]
  exact (Finset.add_sum_erase _ (fun u => (Arc.leaving arcs u).length + 1) (by simp [hv])).symm

/-- A step lowers the potential by one. -/
theorem potential_of_step {s t : Search n} (h : Step arcs s t) :
    potential arcs t + 1 = potential arcs s := by
  cases h with
  | dropRoot _ | turn _ | pass _ => simp [potential, order, path]; omega
  | @openRoot v roots closed back hv =>
    have hcost : costOutside arcs closed = _ + costOutside arcs (v :: closed) :=
      costOutside_insert arcs hv (by simp)
    simp only [potential, order, path, List.map_cons, List.map_nil, List.reverse_cons,
      List.reverse_nil, List.nil_append, List.cons_append, List.sum_cons, List.sum_nil,
      List.length_cons, hcost]
    omega
  | @close v roots closed stack back =>
    have ho : (⟨roots, ⟨v, []⟩ :: stack, closed, back⟩ : Search n).order =
        (⟨roots, stack, v :: closed, back⟩ : Search n).order := order_push
    simp only [potential, ho, List.map_cons, List.sum_cons, List.length_nil]
    omega
  | @descend v a todo roots closed stack back ho hc =>
    have hu : a.target ∉ (v :: stack.map (·.node)).reverse ++ closed := fun hm =>
      (List.mem_append.mp hm).elim (fun h => ho (List.mem_reverse.mp h)) hc
    -- the order gains the node that is opened, somewhere in its middle
    have hcost : costOutside arcs ((v :: stack.map (·.node)).reverse ++ closed) =
        _ + costOutside arcs ((v :: stack.map (·.node)).reverse ++ a.target :: closed) :=
      costOutside_insert arcs hu fun u => List.perm_middle.mem_iff.trans List.mem_cons
    rw [List.reverse_cons, List.append_assoc, List.singleton_append] at hcost
    simp only [potential, order_push, List.map_cons, List.sum_cons, List.length_cons, hcost,
      List.reverse_cons, List.append_assoc, List.singleton_append]
    omega

theorem finished_of_potential {s : Search n} (h : potential arcs s = 0) :
    s.step? arcs = none := by
  cases ht : s.step? arcs with
  | none => rfl
  | some t => exact absurd (potential_of_step (step_of_step? ht)) (by omega)

theorem run_finished : ∀ (fuel : ℕ) (s : Search n), potential arcs s ≤ fuel →
    (run arcs fuel s).step? arcs = none
  | 0, s, h => finished_of_potential (Nat.le_zero.mp h)
  | fuel + 1, s, h => by
    simp only [run]
    split
    · next t ht =>
      have := potential_of_step (step_of_step? ht)
      exact run_finished fuel t (by omega)
    · next ht => exact ht

theorem sum_length_leaving (arcs : List (Arc n)) :
    ∑ v : Fin n, (Arc.leaving arcs v).length = arcs.length := by
  induction arcs with
  | nil => simp [Arc.leaving]
  | cons a arcs ih =>
    have h : ∀ v, (Arc.leaving (a :: arcs) v).length =
        (if a.source = v then 1 else 0) + (Arc.leaving arcs v).length := fun v => by
      by_cases hv : a.source = v <;> simp [Arc.leaving, hv]; omega
    simp only [h, Finset.sum_add_distrib, Finset.sum_ite_eq, Finset.mem_univ, if_true, ih,
      List.length_cons]
    omega

theorem potential_start : potential arcs { roots := List.finRange n } = 2 * n + arcs.length := by
  simp [potential, costOutside, order, path, Finset.sum_add_distrib, sum_length_leaving]
  omega

/-- **The search ends** with nothing left to do, in a state that has the invariant. -/
theorem search_finished (hd : (arcs.map (·.edge)).Nodup) :
    ∃ s : Search n, Inv arcs s ∧ s.roots = [] ∧ s.stack = [] ∧ backEdges arcs = s.back := by
  have hi := inv_run hd (2 * n + arcs.length) _ inv_start
  obtain ⟨hr, hs⟩ := finished_of_step? (run_finished (2 * n + arcs.length) _ potential_start.le)
  exact ⟨_, hi, hr, hs, rfl⟩

end Search

end Scrawl.Layered
