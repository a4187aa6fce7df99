import Scrawl.Layout
import Scrawl.Proofs.Description.Drafts
import Scrawl.Proofs.Graphviz.Assignment
import Scrawl.Proofs.Layered.Independence

/-!
# Scrawl.Proofs.Layout — what a layout leaves of a graph

A layout that succeeds gives a graph all the geometry that a drawing needs and changes nothing else.
One that fails leaves the graph as it was, but for one case: dot may place a node that the graph
does not have, and then the centres before it have been written.

* `setCenters_cases`: centres are written in order, up to the first one of no node.
* `layout_cases`: how a layout may go.
* `layout_fills`, `layout_failed`: what a layout that succeeds, or fails, leaves.
-/

namespace Scrawl

/-! ### Centres -/

variable {α : Type}

/-- The node with a centre. -/
def Node.moveTo (v : Node α) (p : Point α) : Node α :=
  { v with x := some p.x, y := some p.y }

/-- The node after centres have been written in order. -/
def Node.centred (v : Node α) : List (String × Point α) → Node α
  | [] => v
  | (id, p) :: centers => (if v.id == id then v.moveTo p else v).centred centers

/-- The graph after centres have been written in order. -/
def Graph.centred (g : Graph α) (centers : List (String × Point α)) : Graph α :=
  { g with nodes := g.nodes.map (·.centred centers) }

theorem Node.cleared_centred (centers : List (String × Point α)) (v : Node α) :
    (v.centred centers).cleared = v.cleared := by
  induction centers generalizing v with
  | nil => rfl
  | cons c centers ih =>
    refine (ih _).trans ?_
    split <;> rfl

/-- A node stays placed, and it is placed where a centre is its own. -/
theorem Node.isPlaced_centred {centers : List (String × Point α)} {v : Node α}
    (h : v.isPlaced ∨ v.id ∈ centers.map (·.1)) : (v.centred centers).isPlaced := by
  induction centers generalizing v with
  | nil => exact h.resolve_right List.not_mem_nil
  | cons c centers ih =>
    obtain ⟨id, p⟩ := c
    refine ih ?_
    by_cases hid : v.id = id
    · rw [if_pos (by simpa using hid)]
      exact Or.inl rfl
    · rw [if_neg (by simpa using hid)]
      exact h.imp_right fun hmem => (List.mem_cons.mp hmem).resolve_left hid

namespace Graph

theorem cleared_centred (g : Graph α) (centers : List (String × Point α)) :
    (g.centred centers).cleared = g.cleared := by
  simp [cleared, unrouted, centred, Node.cleared_centred]

theorem centred_nil (g : Graph α) : g.centred [] = g := by
  simp [centred, Node.centred]

theorem centred_cons (g : Graph α) (id : String) (p : Point α)
    (centers : List (String × Point α)) :
    (g.updateNode id (·.moveTo p)).centred centers = g.centred ((id, p) :: centers) := by
  simp [updateNode, centred, Node.centred, Function.comp_def]

end Graph

namespace Layout

/-- **Centres are written in order**, all of them or those before the first one of no node. -/
theorem setCenters_cases (g : Graph α) (centers : List (String × Point α)) :
    setCenters g centers = (g.centred centers, none) ∨
    ∃ named id p more, centers = named ++ (id, p) :: more ∧ (∀ c ∈ named, c.1 ∈ g.ids) ∧
      id ∉ g.ids ∧ setCenters g centers = (g.centred named, some id) := by
  induction centers generalizing g with
  | nil => exact Or.inl (by rw [setCenters, Graph.centred_nil])
  | cons c centers ih =>
    obtain ⟨id, p⟩ := c
    by_cases hid : g.hasNode id
    · have hids : (g.updateNode id (·.moveTo p)).ids = g.ids := g.ids_updateNode id fun _ => rfl
      have hset : setCenters g ((id, p) :: centers) =
          setCenters (g.updateNode id (·.moveTo p)) centers := by
        rw [setCenters, if_pos hid]
        rfl
      rw [hset]
      rcases ih (g.updateNode id (·.moveTo p)) with
        h | ⟨named, stray, q, more, rfl, hnamed, hstray, h⟩
      · exact Or.inl (by rw [h, Graph.centred_cons])
      · refine Or.inr ⟨(id, p) :: named, stray, q, more, rfl, ?_, hids ▸ hstray, ?_⟩
        · exact List.forall_mem_cons.mpr ⟨g.hasNode_iff.mp hid, hids ▸ hnamed⟩
        · rw [h, Graph.centred_cons]
    · refine Or.inr ⟨[], id, p, centers, rfl, by simp, mt g.hasNode_iff.mpr hid, ?_⟩
      rw [setCenters, if_neg hid, Graph.centred_nil]

/-! ### Routes -/

/-- Edges keep their ends when they get routes. -/
theorem cleared_setRoutes {g : Graph α} {routes : List (List (Point α))}
    (h : routes.length = g.edges.length) : (setRoutes g routes).cleared = g.cleared := by
  have hedges : (setRoutes g routes).edges.map Edge.cleared = g.edges.map Edge.cleared := by
    refine List.ext_getElem (by simp [setRoutes, h]) fun i _ _ => ?_
    simp [setRoutes, Edge.cleared]
  simp only [Graph.cleared, Graph.unrouted, hedges]
  rfl

theorem isRouted_setRoutes {g : Graph α} {routes : List (List (Point α))}
    (h : ∀ points ∈ routes, 2 ≤ points.length) {e : Edge α}
    (he : e ∈ (setRoutes g routes).edges) : e.isRouted := by
  obtain ⟨i, hi, rfl⟩ := List.getElem_of_mem he
  simpa [setRoutes, Edge.isRouted] using h _ (List.getElem_mem _)

/-! ### How a layout may go -/

section Cases

variable [Scalar α]

/-- What the output of dot makes of a graph that it covers. -/
def drawn (g : Graph α) (placed : Graphviz.Placement α) : Graph α × (α × α) :=
  Layered.frame (setRoutes (g.centred placed.centers) placed.routes)

theorem cleared_drawn {g : Graph α} {placed : Graphviz.Placement α}
    (h : placed.routes.length = g.edges.length) : (drawn g placed).1.cleared = g.cleared :=
  (Layered.cleared_frame _).trans
    ((cleared_setRoutes (g := g.centred placed.centers) h).trans (g.cleared_centred _))

theorem builtin_eq_ok {g g' : Graph α} {input : Option String} {size : α × α}
    (h : builtin g = ⟨g', input, .ok size⟩) : input = none ∧ Layered.layout g = .ok (g', size) := by
  unfold builtin at h
  split at h
  · next heq =>
    cases h
    exact ⟨rfl, heq⟩
  · cases h

variable [Decimal.OfNumeral α]

theorem placementOf_ok {g : Graph α} {ran : DotRun} {placed : Graphviz.Placement α}
    (h : placementOf g ran = .ok placed) :
    ∃ stdout stderr, ran = .finished 0 stdout stderr ∧
      Graphviz.placement g stdout = .ok placed := by
  cases ran with
  | timedOut => cases h
  | notRun reason => cases h
  | finished code stdout stderr =>
    unfold placementOf at h
    dsimp only at h
    split at h
    · cases h
    next hcode =>
    obtain rfl : code = 0 := by simpa using hcode
    cases hplaced : Graphviz.placement g stdout with
    | error fault =>
      rw [hplaced] at h
      cases h
    | ok _ =>
      rw [hplaced] at h
      cases h
      exact ⟨stdout, stderr, rfl, hplaced⟩

variable [Decimal.ToFixed α]

/-- Dot fails, or its output covers the graph.  Then the graph is drawn, unless the output names a
node that the graph does not have. -/
theorem viaDot_cases (g : Graph α) (dot : String → DotRun) :
    (∃ fault, viaDot g dot = ⟨g, some (Graphviz.source g), .error (.engine fault)⟩) ∨
    ∃ stdout stderr placed, dot (Graphviz.source g) = .finished 0 stdout stderr ∧
      Graphviz.placement g stdout = .ok placed ∧
      (viaDot g dot = ⟨(drawn g placed).1, some (Graphviz.source g), .ok (drawn g placed).2⟩ ∨
      ∃ named id p more, placed.centers = named ++ (id, p) :: more ∧ (∀ c ∈ named, c.1 ∈ g.ids) ∧
        id ∉ g.ids ∧
        viaDot g dot = ⟨g.centred named, some (Graphviz.source g), .error (.unknownNode id)⟩) := by
  cases hplaced : placementOf g (dot (Graphviz.source g)) with
  | error fault => exact Or.inl ⟨fault, by simp only [viaDot, hplaced]⟩
  | ok placed =>
    obtain ⟨stdout, stderr, hran, hread⟩ := placementOf_ok hplaced
    refine Or.inr ⟨stdout, stderr, placed, hran, hread, ?_⟩
    rcases setCenters_cases g placed.centers with
      hset | ⟨named, id, p, more, hcenters, hnamed, hid, hset⟩
    · exact Or.inl (by simp only [viaDot, hplaced, hset, drawn])
    · exact Or.inr ⟨named, id, p, more, hcenters, hnamed, hid, by simp only [viaDot, hplaced, hset]⟩

/-- A layout fails before an engine is asked, or is that of one of the two engines. -/
theorem layout_cases (engine : String) (dot? : Option (String → DotRun)) (g : Graph α) :
    (∃ fault, layout engine dot? g = ⟨g, none, .error fault⟩) ∨
    layout engine dot? g = builtin g ∨
    ∃ dot, dot? = some dot ∧ layout engine dot? g = viaDot g dot := by
  unfold layout
  cases g.sizeFault? with
  | some fault => exact Or.inl ⟨_, rfl⟩
  | none =>
    cases Engine.ofName? engine with
    | none => exact Or.inl ⟨_, rfl⟩
    | some engine =>
      dsimp only [run]
      split
      · exact Or.inr (Or.inl rfl)
      · cases dot? with
        | some dot => exact Or.inr (Or.inr ⟨dot, rfl, rfl⟩)
        | none =>
          dsimp only
          split
          · exact Or.inl ⟨_, rfl⟩
          · exact Or.inr (Or.inl rfl)

end Cases

/-! ### Layouts that succeed -/

section Success

/-- `g'` is `g` with all the geometry that a drawing needs, and with the size. -/
structure Fills (g g' : Graph α) (size : α × α) : Prop where
  complete : g'.geometryFault? = none
  width : g'.width = some size.1
  height : g'.height = some size.2
  /-- Nothing but geometry has changed. -/
  same : g'.cleared = g.cleared

variable [Scalar α]

theorem fills_drawn [Decimal.OfNumeral α] {g : Graph α} (hs : g.sizeFault? = none) {text : String}
    {placed : Graphviz.Placement α} (h : Graphviz.placement g text = .ok placed) :
    Fills g (drawn g placed).1 (drawn g placed).2 := by
  obtain ⟨hcenters, hroutes, htwo⟩ := Graphviz.placement_covers h
  have hsame := cleared_drawn hroutes
  have hsized := Graph.sizeFault?_of_cleared hsame hs
  refine ⟨Graph.geometryFault?_eq_none.mpr ⟨Graph.sizeFault?_eq_none.mp hsized, fun u hu => ?_,
    fun e he => ?_, rfl, rfl⟩, rfl, rfl, hsame⟩
  · obtain ⟨v, hv, rfl⟩ := List.mem_map.mp hu
    obtain ⟨v₀, hv₀, rfl⟩ := List.mem_map.mp hv
    have hplaced := Node.isPlaced_centred (Or.inr (hcenters v₀ hv₀))
    simpa [Node.isPlaced] using hplaced
  · obtain ⟨e₀, he₀, rfl⟩ := List.mem_map.mp he
    have hrouted := isRouted_setRoutes htwo he₀
    simpa [Edge.isRouted] using hrouted

theorem fills_layered {g g' : Graph α} {size : α × α} (hj : g.Joined)
    (hs : g.sizeFault? = none) (h : Layered.layout g = .ok (g', size)) : Fills g g' size := by
  obtain ⟨_, _, hok, hcomplete⟩ := Layered.layout_complete hj hs
  cases h.symm.trans hok
  obtain ⟨hwidth, hheight⟩ := Layered.size_of_layout h
  exact ⟨hcomplete, hwidth, hheight, Layered.cleared_of_layout h⟩

variable [Decimal.OfNumeral α] [Decimal.ToFixed α]

/-- A graph that is not sized is not laid out. -/
theorem sized_of_layout {g g' : Graph α} {engine : String} {dot? : Option (String → DotRun)}
    {input : Option String} {size : α × α} (h : layout engine dot? g = ⟨g', input, .ok size⟩) :
    g.sizeFault? = none := by
  unfold layout at h
  cases hs : g.sizeFault? with
  | none => rfl
  | some fault =>
    rw [hs] at h
    cases h

theorem layout_builtin {g : Graph α} (hj : g.Joined) (hs : g.sizeFault? = none)
    (dot? : Option (String → DotRun)) : ∃ g' size,
      layout Engine.builtin.name dot? g = ⟨g', none, .ok size⟩ ∧ g'.geometryFault? = none := by
  obtain ⟨g', size, hl, hg'⟩ := Layered.layout_complete hj hs
  have hengine : Engine.ofName? Engine.builtin.name = some .builtin := by decide
  refine ⟨g', size, ?_, hg'⟩
  unfold layout
  rw [hs, hengine]
  have hrun : Layout.run .builtin dot? g = Layout.builtin g := rfl
  dsimp only
  rw [hrun, Layout.builtin, hl]

end Success

/-- Where dot is not run, graphs that differ in geometry alone have one layout. -/
theorem layout_undotted {g h g' : Graph Float} {engine : String}
    {dot? : Option (String → DotRun)} {size : Float × Float} (hj : g.Joined)
    (hs : g.sizeFault? = none) (hc : h.cleared = g.cleared)
    (hl : layout engine dot? g = ⟨g', none, .ok size⟩) :
    layout engine dot? h = ⟨g', none, .ok size⟩ := by
  have hsh := Graph.sizeFault?_of_cleared hc hs
  have hempty : h.nodes.isEmpty = g.nodes.isEmpty := by
    have hids := Graph.ids_of_cleared hc
    simpa [Graph.ids] using congrArg List.isEmpty hids
  have hbuiltin : builtin g = ⟨g', none, .ok size⟩ →
      builtin h = ⟨g', none, .ok size⟩ := fun hg => by
    rw [builtin, Layered.layout_congr hj hc, (builtin_eq_ok hg).2]
  have hdotted : ∀ dot, viaDot g dot ≠ ⟨g', none, .ok size⟩ := fun dot hg => by
    rcases viaDot_cases g dot with ⟨_, he⟩ | ⟨_, _, _, -, -, he | ⟨_, _, _, _, -, -, -, he⟩⟩ <;>
    · rw [he] at hg
      cases hg
  unfold layout at hl ⊢
  rw [hs] at hl
  rw [hsh]
  cases hengine : Engine.ofName? engine with
  | none =>
    rw [hengine] at hl
    cases hl
  | some engine =>
    rw [hengine] at hl
    dsimp only [run] at hl ⊢
    rw [hempty]
    split at hl
    · next hc => rw [if_pos hc]; exact hbuiltin hl
    · next hc =>
      rw [if_neg hc]
      cases dot? with
      | some dot => exact absurd hl (hdotted dot)
      | none =>
        dsimp only at hl ⊢
        split at hl
        · cases hl
        · next hc => rw [if_neg hc]; exact hbuiltin hl

end Layout

open Layout

/-- **A layout that succeeds gives a graph all its geometry** and changes nothing else.  Without dot
the outcome does not depend on the geometry of before: the graph without geometry has the same one,
and so has the graph that has been laid out. -/
theorem layout_fills {g : Graph Float} (hj : g.Joined) (hs : g.sizeFault? = none) (engine : String)
    (dot? : Option (String → DotRun)) :
    (∀ g' input size, layout engine dot? g = ⟨g', input, .ok size⟩ →
      Fills g g' size ∧
      (input = none → layout engine dot? g.cleared = ⟨g', none, .ok size⟩ ∧
        layout engine dot? g' = ⟨g', none, .ok size⟩)) ∧
    ∃ g' size, layout Engine.builtin.name dot? g = ⟨g', none, .ok size⟩ := by
  refine ⟨fun g' input size hl => ?_, ?_⟩
  · have hfills : Fills g g' size := by
      rcases layout_cases engine dot? g with ⟨_, he⟩ | he | ⟨dot, -, he⟩
      · cases he.symm.trans hl
      · exact fills_layered hj hs (builtin_eq_ok (he.symm.trans hl)).2
      · rcases viaDot_cases g dot with
          ⟨_, hv⟩ | ⟨_, _, placed, -, hplaced, hv | ⟨_, _, _, _, -, -, -, hv⟩⟩
        · cases (he.trans hv).symm.trans hl
        · cases (he.trans hv).symm.trans hl
          exact fills_drawn hs hplaced
        · cases (he.trans hv).symm.trans hl
    refine ⟨hfills, fun hinput => ?_⟩
    subst hinput
    exact ⟨layout_undotted hj hs g.cleared_cleared hl, layout_undotted hj hs hfills.same hl⟩
  · obtain ⟨g', size, hl, -⟩ := layout_builtin hj hs dot?
    exact ⟨g', size, hl⟩

/-- Two nodes, one of them placed and an edge routed by another layout. -/
def halfPlaced : Graph Float :=
  { nodes := [{ id := "a", label := "a", width := some 96, height := some 48, x := some 5,
                y := some 7 },
              { id := "b", label := "b", width := some 96, height := some 48, y := some 1 }]
    edges := [⟨"a", "b", [⟨0, 0⟩]⟩, ⟨"b", "a", [⟨1, 1⟩, ⟨2, 2⟩]⟩, ⟨"a", "a", []⟩]
    marginX := 10, marginY := 10, nodeGap := 50, rankGap := 50, width := some 3 }

/-- The half placed graph is laid out in full, and in the same way once more. -/
theorem layout_fills_halfPlaced : ∃ g' size,
    layout Engine.builtin.name none halfPlaced = ⟨g', none, .ok size⟩ ∧
    Fills halfPlaced g' size ∧
    layout Engine.builtin.name none halfPlaced.cleared = ⟨g', none, .ok size⟩ ∧
    layout Engine.builtin.name none g' = ⟨g', none, .ok size⟩ := by
  have hj : halfPlaced.Joined := by
    unfold Graph.Joined
    decide
  obtain ⟨hfills, g', size, hl⟩ := layout_fills hj rfl Engine.builtin.name none
  obtain ⟨hfilled, hsame⟩ := hfills g' none size hl
  exact ⟨g', size, hl, hfilled, hsame rfl⟩

/-! ### Layouts that fail -/

/-- **A layout that fails leaves the graph as it was**, unless the output of dot covers the graph
and gives a centre to a node that the graph does not have: then the centres before that one have
been written, and nothing else. -/
theorem layout_failed {g g' : Graph Float} {engine : String} {dot? : Option (String → DotRun)}
    {input : Option String} {fault : LayoutFault}
    (h : layout engine dot? g = ⟨g', input, .error fault⟩) :
    g' = g ∨ ∃ dot stdout stderr placed named id p more, dot? = some dot ∧
      dot (Graphviz.source g) = .finished 0 stdout stderr ∧
      Graphviz.placement g stdout = .ok placed ∧ placed.centers = named ++ (id, p) :: more ∧
      (∀ c ∈ named, c.1 ∈ g.ids) ∧ id ∉ g.ids ∧ fault = .unknownNode id ∧
      g' = g.centred named ∧ g'.cleared = g.cleared := by
  rcases layout_cases engine dot? g with ⟨_, he⟩ | he | ⟨dot, hdot, he⟩
  · cases he.symm.trans h
    exact Or.inl rfl
  · have hb := he.symm.trans h
    unfold builtin at hb
    split at hb <;> cases hb
    exact Or.inl rfl
  · rcases viaDot_cases g dot with
      ⟨_, hv⟩ | ⟨stdout, stderr, placed, hran, hplaced, hv | hv⟩
    · cases (he.trans hv).symm.trans h
      exact Or.inl rfl
    · cases (he.trans hv).symm.trans h
    · obtain ⟨named, id, p, more, hcenters, hnamed, hid, hv⟩ := hv
      cases (he.trans hv).symm.trans h
      exact Or.inr ⟨dot, stdout, stderr, placed, named, id, p, more, hdot, hran, hplaced, hcenters,
        hnamed, hid, rfl, rfl, g.cleared_centred named⟩

/-- A node that has been placed. -/
def placedBox : Graph Float :=
  { nodes := [{ id := "a", label := "a", width := some 96, height := some 48, x := some 5,
                y := some 7 }]
    marginX := 10, marginY := 10, nodeGap := 50, rankGap := 50 }

/-- A dot program that places a node that was not asked for. -/
def strayDot (_ : String) : DotRun :=
  .finished 0 ("graph 1 1 1\nnode a 0.5 0.5 1 0.5 \"\" solid box black lightgrey\n" ++
    "node b 0.5 0.5 1 0.5 \"\" solid box black lightgrey\nstop\n") ""

/-- The layout of the placed box by that program. -/
def strayLayout : LayoutOutcome Float := layout Engine.graphviz.name (some strayDot) placedBox

/-- The first coordinates of the nodes, as bits. -/
def xBits (g : Graph Float) : List (Option UInt64) := g.nodes.map fun v => v.x.map Float.toBits

theorem strayLayout_result : strayLayout.result = .error (.unknownNode "b") := by
  have hfault : (match strayLayout.result with
      | .error fault => some fault
      | .ok _ => none) = some (.unknownNode "b") := by decide +kernel
  split at hfault
  · next heq => rw [heq, Option.some.inj hfault]
  · cases hfault

theorem xBits_strayLayout : xBits strayLayout.graph = [some (48 : Float).toBits] := by
  decide +kernel

/-- The box had another place before: the layout fails and has moved it. -/
theorem strayLayout_moves : placedBox.sizeFault? = none ∧
    strayLayout.result = .error (.unknownNode "b") ∧
    xBits placedBox = [some (5 : Float).toBits] ∧ xBits strayLayout.graph = [some (48 : Float).toBits] ∧
    strayLayout.graph ≠ placedBox := by
  refine ⟨rfl, strayLayout_result, rfl, xBits_strayLayout, fun h => ?_⟩
  have hbits := xBits_strayLayout
  rw [h] at hbits
  exact absurd hbits (by decide +kernel)

/-- The stray node is the cause: the box has got its centre before. -/
theorem layout_failed_stray : ∃ named id, (∀ c ∈ named, c.1 ∈ placedBox.ids) ∧
    id ∉ placedBox.ids ∧ LayoutFault.unknownNode "b" = .unknownNode id ∧
    strayLayout.graph = placedBox.centred named ∧ strayLayout.graph.cleared = placedBox.cleared := by
  have h : strayLayout = ⟨strayLayout.graph, strayLayout.dotInput, .error (.unknownNode "b")⟩ := by
    rw [← strayLayout_result]
  rcases layout_failed h with hsame | ⟨_, _, _, _, named, id, _, _, -, -, -, -, hnamed, hid, hfault,
    hgraph, hcleared⟩
  · have hbits := xBits_strayLayout
    rw [hsame] at hbits
    exact absurd hbits (by decide +kernel)
  · exact ⟨named, id, hnamed, hid, hfault, hgraph, hcleared⟩

end Scrawl
