import Scrawl.Graphviz.Plain

/-!
# Scrawl.Proofs.Graphviz.Assignment — what the output of dot has to give a graph

* `assignRoutes_eq`: every edge takes the route that is meant for it.
* `placement_covers`: a placement has a centre for every node and a route for every edge.
-/

namespace Scrawl.Graphviz

variable {α : Type}

/-! ### A route for every edge -/

theorem assignRoutes_covers {routes : List ((String × String) × List (Point α))}
    {edges : List (Edge α)} {given : List (List (Point α))}
    (h : assignRoutes routes edges = .ok given) :
    given.length = edges.length ∧ ∀ points ∈ given, 2 ≤ points.length := by
  induction edges generalizing routes given with
  | nil =>
    cases h
    simp
  | cons e edges ih =>
    unfold assignRoutes at h
    split at h
    · cases h
    next points _ =>
    split at h
    · cases h
    next hmany =>
    dsimp only at h
    cases hrest : assignRoutes (routes.eraseP (·.1 == (e.source, e.target))) edges with
    | error fault =>
      rw [hrest] at h
      cases h
    | ok rest =>
      rw [hrest] at h
      cases h
      obtain ⟨hlength, htwo⟩ := ih hrest
      exact ⟨congrArg (· + 1) hlength, List.forall_mem_cons.mpr ⟨Nat.not_lt.mp hmany, htwo⟩⟩

/-! ### Parallel edges -/

section Parallel

variable {β : Type} {p q : β → Bool}

theorem filter_eraseP_self (xs : List β) : (xs.eraseP p).filter p = (xs.filter p).tail := by
  induction xs with
  | nil => rfl
  | cons x xs ih => cases hx : p x <;> simp [hx, ih]

theorem filter_eraseP_of_disjoint (h : ∀ x, q x → p x = false) (xs : List β) :
    (xs.eraseP p).filter q = xs.filter q := by
  induction xs with
  | nil => rfl
  | cons x xs ih =>
    cases hx : p x with
    | true =>
      have hq : q x = false := Bool.eq_false_iff.mpr fun hq => by simp [h x hq] at hx
      simp [hx, hq]
    | false => simp [hx, List.filter_cons, ih]

end Parallel

/-- The ends of an edge. -/
def endsOf (e : Edge α) : String × String := (e.source, e.target)

theorem assignRoutes_cons {routes : List ((String × String) × List (Point α))} {e : Edge α}
    {ends : String × String} {points : List (Point α)}
    (hfind : routes.find? (·.1 == endsOf e) = some (ends, points)) (htwo : 2 ≤ points.length)
    (edges : List (Edge α)) : assignRoutes routes (e :: edges) =
      (assignRoutes (routes.eraseP (·.1 == endsOf e)) edges).map (points :: ·) := by
  have hfind' : routes.find? (·.1 == (e.source, e.target)) = some (ends, points) := hfind
  rw [assignRoutes, hfind']
  dsimp only
  rw [if_neg (Nat.not_lt.mpr htwo)]
  rfl

/-- **Parallel edges take their routes in order**: if the routes of each two ends are those that are
meant for the edges between them, in order, then every edge takes the one that is meant for it. -/
theorem assignRoutes_eq {routes : List ((String × String) × List (Point α))}
    {edges : List (Edge α)} {given : List (List (Point α))} (hl : given.length = edges.length)
    (htwo : ∀ points ∈ given, 2 ≤ points.length)
    (h : ∀ ends, routes.filter (·.1 == ends) =
      ((edges.map endsOf).zip given).filter (·.1 == ends)) :
    assignRoutes routes edges = .ok given := by
  induction edges generalizing routes given with
  | nil =>
    obtain rfl := List.length_eq_zero_iff.mp hl
    rfl
  | cons e edges ih =>
    obtain ⟨points, given, rfl⟩ := List.exists_cons_of_length_eq_add_one hl
    obtain ⟨hpoints, htwo⟩ := List.forall_mem_cons.mp htwo
    have hfirst : routes.find? (·.1 == endsOf e) = some (endsOf e, points) := by
      rw [← List.head?_filter, h]
      simp
    have hleft : ∀ ends, (routes.eraseP (·.1 == endsOf e)).filter (·.1 == ends) =
        ((edges.map endsOf).zip given).filter (·.1 == ends) := fun ends => by
      have hends := h ends
      rw [List.map_cons, List.zip_cons_cons] at hends
      by_cases heq : ends = endsOf e
      · subst heq
        rw [filter_eraseP_self, hends, List.filter_cons_of_pos (by simp), List.tail_cons]
      · have hdisjoint : ∀ x : (String × String) × List (Point α), (x.1 == ends) = true →
            (x.1 == endsOf e) = false := fun x hx => by
          rw [eq_of_beq hx]
          simpa using heq
        rw [filter_eraseP_of_disjoint hdisjoint, hends, List.filter_cons_of_neg]
        simpa using Ne.symm heq
    rw [assignRoutes_cons hfirst hpoints, ih (Nat.succ.inj hl) htwo hleft]
    rfl

/-- **A placement covers its graph**: every node has a centre, every edge a route. -/
theorem placement_covers [Sub α] [Mul α] [OfScientific α] [Decimal.OfNumeral α] {g : Graph α}
    {text : String} {placed : Placement α} (h : placement g text = .ok placed) :
    (∀ v ∈ g.nodes, v.id ∈ placed.centers.map (·.1)) ∧ placed.routes.length = g.edges.length ∧
      ∀ points ∈ placed.routes, 2 ≤ points.length := by
  unfold placement at h
  cases hread : (Plain.read text : Except PlainFault (Plain α)) with
  | error fault =>
    rw [hread] at h
    cases h
  | ok plain =>
    rw [hread] at h
    cases hmissing : g.nodes.find? fun v => !plain.centers.any (·.1 == v.id) with
    | some v =>
      simp only [hmissing, bind, Except.bind] at h
      cases h
    | none =>
      cases hroutes : assignRoutes plain.routes g.edges with
      | error fault =>
        simp only [hmissing, hroutes, bind, Except.bind] at h
        cases h
      | ok routes =>
        simp only [hmissing, hroutes, bind, Except.bind] at h
        cases h
        refine ⟨fun v hv => ?_, assignRoutes_covers hroutes⟩
        have hnamed := List.find?_eq_none.mp hmissing v hv
        simpa using hnamed

end Scrawl.Graphviz
