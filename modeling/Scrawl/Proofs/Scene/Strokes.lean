import Scrawl.Proofs.Scene.Reading
import Scrawl.Proofs.Stroke.Draws

/-!
# Scrawl.Proofs.Scene.Strokes — strokes that do not depend on each other

All strokes of a drawing are made from one source of random numbers, yet a change to one node does
not redraw the others: the numbers of each stroke begin at a place that depends on the number of the
nodes and on how many points the edges before it have, and the stroke is made of them alone.

* `draw_strokes`: the numbers that make the strokes of a drawing.
* `nodeShapes_document`, `edgePaths_document`: the paths of a document.
* `render_strokes`: the paths of two rendered graphs.
-/

namespace Scrawl

open Stroke Source

/-! ### Strokes by their numbers -/

namespace Stroke

variable {σ α β : Type} [Source σ α]

/-- The sketch gives `b` by a count of numbers of the source, from the place `first` on: it does so
from any source that begins with these numbers, and takes no others. -/
def DrawnFrom (x : Sketch σ β) (source : σ) (first count : ℕ) (b : β) : Prop :=
  ∀ t : σ, (∀ k < count, (nth k t : α) = nth (first + k) source) → x t = (.ok b, after count t)

theorem Takes.drawnFrom {x : Sketch σ β} {source rest : σ} {first count : ℕ} {b : β}
    (hx : Takes count x) (h : x (after first source) = (.ok b, rest)) :
    DrawnFrom x source first count b :=
  fun t ht => hx h t fun k hk => (ht k hk).trans (nth_after first k source).symm

theorem DrawnFrom.unique {x : Sketch σ β} {source : σ} {first count : ℕ} {b c : β}
    (h : DrawnFrom x source first count b) (h' : DrawnFrom x source first count c) : b = c := by
  have hb := h (after first source) fun k _ => nth_after first k source
  have hc := h' (after first source) fun k _ => nth_after first k source
  exact Except.ok.inj (Prod.mk.inj (hb.symm.trans hc)).1

end Stroke

namespace Scene

section Drawings

variable {σ α : Type} [Scalar α] [Source σ α]

/-- The rectangle of a node. -/
def nodeRectangle (pen : Pen α) (size : α × α) (center : Point α) : Sketch σ (Path α) :=
  pen.rectangle (center.x - size.1 / 2.0) (topOf center.y size.2) size.1 size.2

/-- The place at which the numbers of an edge begin: after 88 for each node, and for each edge
before it four for each of its points and for its ends again. -/
def edgePlace (g : Graph α) (i : ℕ) : ℕ :=
  88 * g.nodes.length + ((g.edges.take i).map fun e => 4 * (e.points.length + 2)).sum

theorem takes_drawNode (pen : Pen α) (id label : String) (size : α × α) (center : Point α) :
    Takes 88 (drawNode pen id label size center : Sketch σ (NodeShape α)) :=
  (takes_rectangle pen _ _ _ _).bind fun _ => (takes_writtenPoint center).bind fun _ =>
    Takes.pure _

theorem takes_drawEdge (pen : Pen α) (e : Edge α) :
    Takes (4 * (e.points.length + 2)) (drawEdge pen e : Sketch σ (EdgeShape α)) :=
  (takes_curve pen e.points).bind fun _ => Takes.pure _

theorem outline_of_drawNode {pen : Pen α} {id label : String} {size : α × α} {center : Point α}
    {s rest : σ} {shape : NodeShape α}
    (h : drawNode pen id label size center s = (.ok shape, rest)) :
    ∃ between, nodeRectangle pen size center s = (.ok shape.outline, between) := by
  obtain ⟨outline, _, hrectangle, h⟩ := bind_ok h
  obtain ⟨center', _, -, h⟩ := bind_ok h
  cases h
  exact ⟨_, hrectangle⟩

theorem path_of_drawEdge {pen : Pen α} {e : Edge α} {s rest : σ} {shape : EdgeShape α}
    (h : drawEdge pen e s = (.ok shape, rest)) :
    ∃ between, pen.curve e.points s = (.ok shape.path, between) := by
  obtain ⟨path, _, hcurve, h⟩ := bind_ok h
  cases h
  exact ⟨_, hcurve⟩

/-- The numbers that make the strokes of a drawing: 88 for each node, one node after the other, and
then those of the edges. -/
structure StrokesOf (pen : Pen α) (source : σ) (g : Graph α) (d : Drawing α) : Prop where
  nodes_length : d.nodes.length = g.nodes.length
  edges_length : d.edges.length = g.edges.length
  node : ∀ i v, g.nodes[i]? = some v → ∃ shape size center, d.nodes[i]? = some shape ∧
    v.size? = some size ∧ v.center? = some center ∧
    DrawnFrom (nodeRectangle pen size center) source (88 * i) 88 shape.outline
  edge : ∀ i e, g.edges[i]? = some e → ∃ shape, d.edges[i]? = some shape ∧
    DrawnFrom (pen.curve e.points) source (edgePlace g i) (4 * (e.points.length + 2)) shape.path

/-- **The strokes of a drawing** are made of numbers of their own. -/
theorem draw_strokes {style : Style α} {source : σ} {g : Graph α} {d : Drawing α}
    (h : draw style source g = .ok d) :
    StrokesOf (mainPen style.sketchiness) source g d := by
  obtain ⟨r, hresolve, -, -, between, rest, hnodes, hedges⟩ := draw_parts h
  obtain ⟨hresolved, hsame, -⟩ := resolve_parts hresolve
  obtain ⟨hdraws, -⟩ := draw_ok h
  have hnodes := ok_of_runSketch hnodes
  have hedges := ok_of_runSketch hedges
  rw [hsame] at hedges
  have htakes : ∀ n ∈ r.nodes, Takes 88 (drawNode (mainPen style.sketchiness) n.1 n.2.1 n.2.2.1
      n.2.2.2 : Sketch σ (NodeShape α)) := fun n _ => takes_drawNode _ _ _ _ _
  have hbetween : between = after (88 * g.nodes.length) source := by
    have hrest := (Takes.mapM (fun _ => 88) htakes).rest_eq hnodes
    rwa [List.map_const', List.sum_replicate_nat, ← hresolved.length_eq, Nat.mul_comm] at hrest
  refine ⟨hdraws.nodes.length_eq.symm, hdraws.edges.length_eq.symm, fun i v hv => ?_,
    fun i e he => ?_⟩
  · obtain ⟨n, hn, size, center, hsize, hcenter, rfl⟩ := exists_getElem?_of_forall₂ hresolved hv
    obtain ⟨shape, _, hshape, hrun⟩ := Takes.getElem?_mapM _ htakes hnodes hn
    have hplace : ((r.nodes.take i).map fun _ => 88).sum = 88 * i := by
      have hi := (List.getElem?_eq_some_iff.mp hn).1
      rw [List.map_const', List.sum_replicate_nat, List.length_take_of_le hi.le, Nat.mul_comm]
    rw [hplace] at hrun
    obtain ⟨_, hrectangle⟩ := outline_of_drawNode hrun
    exact ⟨shape, size, center, hshape, hsize, hcenter,
      (takes_rectangle _ _ _ _ _).drawnFrom hrectangle⟩
  · obtain ⟨shape, _, hshape, hrun⟩ :=
      Takes.getElem?_mapM _ (fun e _ => takes_drawEdge _ e) hedges he
    rw [hbetween, ← after_add] at hrun
    obtain ⟨_, hcurve⟩ := path_of_drawEdge hrun
    exact ⟨shape, hshape, (takes_curve _ _).drawnFrom hcurve⟩

/-- Over the reals every graph with all its geometry has such strokes. -/
theorem exists_strokes_real {σ : Type} [Source σ ℝ] {style : Style ℝ} (source : σ) {g : Graph ℝ}
    (hg : g.geometryFault? = none) (hs : ¬ style.sketchiness < 0.0) :
    ∃ d, draw style source g = .ok d ∧ StrokesOf (mainPen style.sketchiness) source g d := by
  obtain ⟨d, hd⟩ := exists_draw_real source hg hs
  exact ⟨d, hd, draw_strokes hd⟩

end Drawings

/-! ### Paths of a document -/

section Documents

open Svg Element

/-- The element of a node's rectangle. -/
def outlineElement (v : NodeShape Float) : Element :=
  pathElement "node-shape" v.outline (strokeStyle "1")

/-- The element of an edge's curve. -/
def curveElement (e : EdgeShape Float) : Element :=
  pathElement "edge-path" e.path (strokeStyle "1" ++ [("marker-end", "url(#" ++ arrowId ++ ")")])

theorem attribute?_path (kind : String) (path : Path Float) (style : Svg.Attributes) :
    (pathElement kind path style).attribute? "class" = some kind ∧
      (pathElement kind path style).attribute? "d" = some (pathText path) :=
  ⟨rfl, rfl⟩

/-- The paths of a document: two for the arrow head, and one for each node and each edge. -/
theorem withTag_document_path (d : Drawing Float) : (document d).withTag "path" =
    [pathElement "arrowhead-fill" d.arrowFill [("fill", strokeColor), ("stroke", "none")],
      pathElement "arrowhead" d.arrowOutline (strokeStyle "0.5")] ++
    (d.nodes.map outlineElement ++ d.edges.map curveElement) := by
  have hnodes : d.nodes.flatMap (fun v => (nodeElement v).withTag "path") =
      d.nodes.map outlineElement := by
    rw [List.map_eq_flatMap]
    exact List.flatMap_congr fun v _ => by rw [withTag_node v (by decide)]; rfl
  have hedges : d.edges.flatMap (fun e => (edgeElement e).withTag "path") =
      d.edges.map curveElement := by
    rw [List.map_eq_flatMap]
    exact List.flatMap_congr fun e _ => by rw [withTag_edge]; rfl
  have hmarker : (marker d).withTag "path" =
      [pathElement "arrowhead-fill" d.arrowFill [("fill", strokeColor), ("stroke", "none")],
        pathElement "arrowhead" d.arrowOutline (strokeStyle "0.5")] := by
    rw [marker, withTag_branch, List.flatMap_cons, List.flatMap_singleton, withTag_path,
      withTag_path]
    rfl
  rw [document, withTag_branch, if_neg (by decide), List.nil_append, List.flatMap_cons,
    withTag_branch, if_neg (by decide), List.nil_append, List.flatMap_singleton, hmarker,
    List.flatMap_append, List.flatMap_map, List.flatMap_map, hnodes, hedges]

theorem select_path (s : Scene) (kind : String) : s.select "path" (some kind) =
    (s.root.withTag "path").filter (·.attribute? "class" == some kind) := by
  rw [withTag, List.filter_filter]
  exact List.filter_congr fun e _ => Bool.and_comm _ _

theorem filter_class {es : List Element} {kind : String}
    (h : ∀ x ∈ es, x.attribute? "class" = some kind) (kind' : String) :
    es.filter (·.attribute? "class" == some kind') = if kind = kind' then es else [] := by
  split_ifs with hkind
  · exact List.filter_eq_self.mpr fun x hx => by rw [h x hx, hkind, beq_self_eq_true]
  · exact List.filter_eq_nil_iff.mpr fun x hx => by simpa [h x hx] using hkind

/-- The paths of a class in a document. -/
theorem select_path_document (d : Drawing Float) (width height : Float) {kind : String}
    (hfill : "arrowhead-fill" ≠ kind) (houtline : "arrowhead" ≠ kind) :
    (⟨document d, width, height⟩ : Scene).select "path" (some kind) =
      (if "node-shape" = kind then d.nodes.map outlineElement else []) ++
        if "edge-path" = kind then d.edges.map curveElement else [] := by
  have hnodes : ∀ x ∈ d.nodes.map outlineElement, x.attribute? "class" = some "node-shape" := by
    simp [outlineElement, attribute?_path]
  have hedges : ∀ x ∈ d.edges.map curveElement, x.attribute? "class" = some "edge-path" := by
    simp [curveElement, attribute?_path]
  rw [select_path, withTag_document_path, List.filter_append, List.filter_append,
    filter_class hnodes, filter_class hedges]
  simp [attribute?_path, hfill, houtline]

/-- The outlines of a document are those of its nodes. -/
theorem nodeShapes_document (d : Drawing Float) (width height : Float) :
    (⟨document d, width, height⟩ : Scene).nodeShapes = d.nodes.map outlineElement :=
  (select_path_document d width height (by decide) (by decide)).trans (List.append_nil _)

/-- The curves of a document are those of its edges. -/
theorem edgePaths_document (d : Drawing Float) (width height : Float) :
    (⟨document d, width, height⟩ : Scene).edgePaths = d.edges.map curveElement :=
  select_path_document d width height (by decide) (by decide)

end Documents

/-! ### Rendered graphs -/

open Svg (Element)

/-- The text of one of several paths. -/
def textAt (paths : List Element) (i : ℕ) : Option String :=
  paths[i]?.bind (·.attribute? "d")

/-- The scene has a path for each node, drawn by 88 numbers of the seed, one node after the other,
and a path for each edge, drawn by the numbers after these. -/
structure ShowsStrokes (style : Style Float) (seed : ℤ) (g : Graph Float) (s : Scene) : Prop where
  nodes_length : s.nodeShapes.length = g.nodes.length
  edges_length : s.edgePaths.length = g.edges.length
  node : ∀ i v, g.nodes[i]? = some v → ∃ path size center,
    textAt s.nodeShapes i = some (pathText path) ∧ v.size? = some size ∧
    v.center? = some center ∧ DrawnFrom (nodeRectangle (mainPen style.sketchiness) size center)
      (Random.Twister.ofSeed seed) (88 * i) 88 path
  edge : ∀ i e, g.edges[i]? = some e → ∃ path,
    textAt s.edgePaths i = some (pathText path) ∧
    DrawnFrom ((mainPen style.sketchiness).curve e.points) (Random.Twister.ofSeed seed)
      (edgePlace g i) (4 * (e.points.length + 2)) path

theorem showsStrokes_of_render {style : Style Float} {seed : ℤ} {g : Graph Float} {s : Scene}
    (h : render style seed g = .ok s) : ShowsStrokes style seed g s := by
  obtain ⟨d, hdraw, h⟩ := Description.ok_of_bind_ok h
  obtain rfl := Except.ok.inj h
  have hstrokes := draw_strokes hdraw
  have hnodes := nodeShapes_document d d.width d.height
  have hedges := edgePaths_document d d.width d.height
  refine ⟨?_, ?_, fun i v hv => ?_, fun i e he => ?_⟩
  · rw [hnodes, List.length_map, hstrokes.nodes_length]
  · rw [hedges, List.length_map, hstrokes.edges_length]
  · obtain ⟨shape, size, center, hshape, hsize, hcenter, hdrawn⟩ := hstrokes.node i v hv
    refine ⟨shape.outline, size, center, ?_, hsize, hcenter, hdrawn⟩
    rw [hnodes, textAt, List.getElem?_map, hshape]
    rfl
  · obtain ⟨shape, hshape, hdrawn⟩ := hstrokes.edge i e he
    refine ⟨shape.path, ?_, hdrawn⟩
    rw [hedges, textAt, List.getElem?_map, hshape]
    rfl

section Pairs

variable {style style' : Style Float} (hs : style'.sketchiness = style.sketchiness)
  {g g' : Graph Float} {seed : ℤ} {s s' : Scene} (h : ShowsStrokes style seed g s)
  (h' : ShowsStrokes style' seed g' s')
include hs h h'

theorem ShowsStrokes.node_eq {i : ℕ} {v v' : Node Float} (hv : g.nodes[i]? = some v)
    (hv' : g'.nodes[i]? = some v') (hx : v'.x = v.x) (hy : v'.y = v.y)
    (hwidth : v'.width = v.width) (hheight : v'.height = v.height) :
    ∃ text, textAt s.nodeShapes i = some text ∧ textAt s'.nodeShapes i = some text := by
  obtain ⟨path, size, center, htext, hsize, hcenter, hdrawn⟩ := h.node i v hv
  obtain ⟨path', size', center', htext', hsize', hcenter', hdrawn'⟩ := h'.node i v' hv'
  have hsizes : v'.size? = v.size? := by rw [Node.size?, hwidth, hheight]; rfl
  have hcenters : v'.center? = v.center? := by rw [Node.center?, hx, hy]; rfl
  obtain rfl : size' = size := Option.some.inj (hsize'.symm.trans (hsizes.trans hsize))
  obtain rfl : center' = center := Option.some.inj (hcenter'.symm.trans (hcenters.trans hcenter))
  rw [hs] at hdrawn'
  exact ⟨_, htext, hdrawn.unique hdrawn' ▸ htext'⟩

theorem ShowsStrokes.edge_eq (hn : g'.nodes.length = g.nodes.length)
    (he : g'.edges.map (·.points.length) = g.edges.map (·.points.length)) {i : ℕ}
    {e e' : Edge Float} (hi : g.edges[i]? = some e) (hi' : g'.edges[i]? = some e')
    (hpoints : e'.points = e.points) :
    ∃ text, textAt s.edgePaths i = some text ∧ textAt s'.edgePaths i = some text := by
  obtain ⟨path, htext, hdrawn⟩ := h.edge i e hi
  obtain ⟨path', htext', hdrawn'⟩ := h'.edge i e' hi'
  have hplace : edgePlace g' i = edgePlace g i := by
    have hcounts : ∀ g : Graph Float, ((g.edges.take i).map fun e => 4 * (e.points.length + 2)) =
        ((g.edges.map (·.points.length)).take i).map fun n => 4 * (n + 2) := fun g => by
      rw [← List.map_take, List.map_map]
      rfl
    rw [edgePlace, edgePlace, hn, hcounts, hcounts, he]
  rw [hs, hplace, hpoints] at hdrawn'
  exact ⟨_, htext, hdrawn.unique hdrawn' ▸ htext'⟩

end Pairs

/-- **A stroke is not redrawn for what happens elsewhere.**  Let two graphs have as many nodes and
edges and, edge by edge, as many points.  Rendered with one roughness and one seed, unless there is
a fault, each of their nodes is drawn by 88 numbers of the seed and each of their edges by four for
each point and for its ends again, all in order.  So nodes with the same centre and size have the
same path text, and so do edges with the same points, whatever the rest of the graphs is. -/
theorem render_strokes {style style' : Style Float} (hs : style'.sketchiness = style.sketchiness)
    {g g' : Graph Float} (hn : g'.nodes.length = g.nodes.length)
    (he : g'.edges.map (·.points.length) = g.edges.map (·.points.length)) (seed : ℤ) :
    (∃ fault, render style seed g = .error fault) ∨
    (∃ fault, render style' seed g' = .error fault) ∨
    ∃ s s', render style seed g = .ok s ∧ render style' seed g' = .ok s' ∧
      ShowsStrokes style seed g s ∧ ShowsStrokes style' seed g' s' ∧
      (∀ i v v', g.nodes[i]? = some v → g'.nodes[i]? = some v' → v'.x = v.x → v'.y = v.y →
        v'.width = v.width → v'.height = v.height →
        ∃ text, textAt s.nodeShapes i = some text ∧ textAt s'.nodeShapes i = some text) ∧
      ∀ i e e', g.edges[i]? = some e → g'.edges[i]? = some e' → e'.points = e.points →
        ∃ text, textAt s.edgePaths i = some text ∧ textAt s'.edgePaths i = some text := by
  cases hrender : render style seed g with
  | error fault => exact Or.inl ⟨fault, rfl⟩
  | ok s =>
    cases hrender' : render style' seed g' with
    | error fault => exact Or.inr (Or.inl ⟨fault, rfl⟩)
    | ok s' =>
      have h := showsStrokes_of_render hrender
      have h' := showsStrokes_of_render hrender'
      exact Or.inr (Or.inr ⟨s, s', rfl, rfl, h, h',
        fun _ _ _ hv hv' hx hy hwidth hheight => h.node_eq hs h' hv hv' hx hy hwidth hheight,
        fun _ _ _ hi hi' hpoints => h.edge_eq hs h' hn he hi hi' hpoints⟩)

/-- The graph with its first node renamed, moved and widened. -/
def movedGraph : Graph Float :=
  { markedGraph with
    nodes := markedGraph.nodes.modify 0 fun v =>
      { v with id := "c", label := "c", width := some 120.0, x := some 90.0 } }

/-- A style of the same roughness with another font. -/
def plainStyle : Style Float := ⟨0.0, "serif", 12.0⟩

/-- The second node and the edge are drawn as before. -/
theorem render_strokes_moved : plainStyle.sketchiness = markedStyle.sketchiness ∧
    movedGraph.nodes.length = markedGraph.nodes.length ∧
    movedGraph.edges.map (·.points.length) = markedGraph.edges.map (·.points.length) ∧
    ∃ s s', render markedStyle 7 markedGraph = .ok s ∧ render plainStyle 7 movedGraph = .ok s' ∧
      (∃ text, textAt s.nodeShapes 1 = some text ∧ textAt s'.nodeShapes 1 = some text) ∧
      ∃ text, textAt s.edgePaths 0 = some text ∧ textAt s'.edgePaths 0 = some text := by
  have hs : plainStyle.sketchiness = markedStyle.sketchiness := rfl
  have hn : movedGraph.nodes.length = markedGraph.nodes.length := rfl
  have he : movedGraph.edges.map (·.points.length) = markedGraph.edges.map (·.points.length) := rfl
  refine ⟨hs, hn, he, ?_⟩
  have hzero : Decimal.IsZero plainStyle.sketchiness := ⟨.positive, rfl⟩
  have hquiet : (draw plainStyle Quiet.mk movedGraph).isOk = true := by decide +kernel
  obtain ⟨marked, hmarked⟩ := exists_render_marked 7
  obtain ⟨moved, hmoved⟩ := exists_render hzero hquiet 7
  rcases render_strokes hs hn he 7 with
    ⟨fault, hfault⟩ | ⟨fault, hfault⟩ | ⟨s, s', hrender, hrender', -, -, hnodes, hedges⟩
  · rw [hmarked] at hfault
    cases hfault
  · rw [hmoved] at hfault
    cases hfault
  · exact ⟨s, s', hrender, hrender', hnodes 1 _ _ rfl rfl rfl rfl rfl rfl,
      hedges 0 _ _ rfl rfl rfl⟩

end Scene

end Scrawl
