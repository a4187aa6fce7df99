import Scrawl.Proofs.Scene.Runs

/-!
# Scrawl.Proofs.Scene.Reading — what is read from a rendered graph

Who reads the text of a rendered graph finds the elements that were drawn and no others, whatever
the ids, the labels and the font family are: one marker, a group for each node with its id and
label, and a group for each edge with its ends, in the order of the graph.

* `named_tree`: the elements of a name in what is read.
* `pictures_tree`: what a document shows of a graph.
* `skeleton_tree`: the elements and the names of their attributes, which depend on nothing but the
  number of lines of each label and the number of edges.
* `read_document`, `render_reads`: the document of a drawing, and a rendered graph, are read back.
-/

namespace Scrawl

open Svg Text

/-! ### Elements of a name -/

namespace Svg.Element

/-- The element and the elements in it that have the tag. -/
def withTag (name : String) (e : Element) : List Element := e.all.filter (·.tag == name)

variable {name tag text : String} {attributes : Attributes} {es : List Element}

theorem allOf_eq_flatMap (es : List Element) : allOf es = es.flatMap all := by
  induction es with
  | nil => rfl
  | cons e es ih => rw [allOf, ih, List.flatMap_cons]

theorem withTag_leaf : (leaf tag attributes text).withTag name =
    if tag = name then [leaf tag attributes text] else [] := by
  simp [withTag, all, Element.tag, List.filter_cons]

theorem withTag_branch : (branch tag attributes es).withTag name =
    (if tag = name then [branch tag attributes es] else []) ++ es.flatMap (·.withTag name) := by
  rw [withTag, all, List.filter_cons, allOf_eq_flatMap, List.filter_flatMap]
  by_cases h : tag = name <;> simp [Element.tag, h, withTag]

mutual

theorem elements_tree (e : Element) : e.tree.elements = e.all.map tree := by
  match e with
  | .leaf tag attributes text =>
    rw [all, List.map_cons, List.map_nil, tree, Xml.Node.elements]
    split <;> rfl
  | .branch tag attributes es =>
    rw [tree, Xml.Node.elements, elementsOf_treeOf es, all, List.map_cons, tree]

theorem elementsOf_treeOf (es : List Element) :
    Xml.Node.elementsOf (treeOf es) = (allOf es).map tree := by
  match es with
  | [] => rfl
  | e :: es =>
    rw [treeOf, Xml.Node.elementsOf, elements_tree e, elementsOf_treeOf es, allOf, List.map_append]

end

theorem hasName_tree (e : Element) : e.tree.hasName name = (e.tag == name) := by
  cases e <;> rfl

theorem attribute?_tree (e : Element) : e.tree.attribute? name = e.attribute? name := by
  cases e <;> rfl

/-- **The elements of a name** in what is read are those that were written. -/
theorem named_tree (e : Element) : e.tree.named name = (e.withTag name).map tree := by
  rw [Xml.Node.named, elements_tree, List.filter_map, withTag]
  congr 1
  exact List.filter_congr fun x _ => hasName_tree x

end Svg.Element

namespace Scene

open Element

section Tags

variable {name : String}

theorem withTag_path {kind : String} {path : Stroke.Path Float} {style : Svg.Attributes} :
    (pathElement kind path style).withTag name =
      if "path" = name then [pathElement kind path style] else [] :=
  withTag_leaf

theorem withTag_lines (x : String) (count i : ℕ) (lines : List String) :
    (lineElements x count i lines).flatMap (·.withTag name) =
      if "tspan" = name then lineElements x count i lines else [] := by
  induction lines generalizing i with
  | nil => simp [lineElements]
  | cons line lines ih =>
    rw [lineElements, List.flatMap_cons, ih, withTag_leaf]
    split <;> rfl

theorem withTag_label (v : NodeShape Float) (h : name ≠ "tspan") :
    (labelElement v).withTag name = if "text" = name then [labelElement v] else [] := by
  rcases labelElement_cases v with ⟨line, -, hlabel⟩ | ⟨-, hlabel⟩
  · rw [hlabel, withTag_leaf]
  · rw [hlabel, withTag_branch, withTag_lines, if_neg h.symm, List.append_nil]

theorem withTag_node (v : NodeShape Float) (h : name ≠ "tspan") : (nodeElement v).withTag name =
    (if "g" = name then [nodeElement v] else []) ++
      ((if "path" = name then [pathElement "node-shape" v.outline (strokeStyle "1")] else []) ++
        if "text" = name then [labelElement v] else []) := by
  rw [nodeElement, withTag_branch, List.flatMap_cons, List.flatMap_singleton, withTag_path,
    withTag_label v h]

theorem withTag_edge (e : EdgeShape Float) : (edgeElement e).withTag name =
    (if "g" = name then [edgeElement e] else []) ++
      if "path" = name then [pathElement "edge-path" e.path
        (strokeStyle "1" ++ [("marker-end", "url(#" ++ arrowId ++ ")")])] else [] := by
  rw [edgeElement, withTag_branch, List.flatMap_singleton, withTag_path]

theorem withTag_marker (d : Drawing Float) (h : name ≠ "path") :
    (marker d).withTag name = if "marker" = name then [marker d] else [] := by
  rw [marker, withTag_branch, List.flatMap_cons, List.flatMap_singleton, withTag_path, withTag_path,
    if_neg h.symm, if_neg h.symm]
  simp

theorem withTag_document (d : Drawing Float) (hsvg : name ≠ "svg") (hdefs : name ≠ "defs")
    (hpath : name ≠ "path") : (document d).withTag name =
      (if "marker" = name then [marker d] else []) ++
        (d.nodes.flatMap (fun v => (nodeElement v).withTag name) ++
          d.edges.flatMap fun e => (edgeElement e).withTag name) := by
  rw [document, withTag_branch, if_neg hsvg.symm, List.nil_append, List.flatMap_cons,
    withTag_branch, if_neg hdefs.symm, List.nil_append, List.flatMap_singleton,
    withTag_marker d hpath, List.flatMap_append, List.flatMap_map, List.flatMap_map]

/-- There is one marker. -/
theorem withTag_document_marker (d : Drawing Float) : (document d).withTag "marker" = [marker d] := by
  have hnodes : d.nodes.flatMap (fun v => (nodeElement v).withTag "marker") = [] :=
    List.flatMap_eq_nil_iff.mpr fun v _ => by rw [withTag_node v (by decide)]; rfl
  have hedges : d.edges.flatMap (fun e => (edgeElement e).withTag "marker") = [] :=
    List.flatMap_eq_nil_iff.mpr fun e _ => by rw [withTag_edge]; rfl
  rw [withTag_document d (by decide) (by decide) (by decide), hnodes, hedges]
  rfl

/-- The groups are those of the nodes and those of the edges. -/
theorem withTag_document_group (d : Drawing Float) :
    (document d).withTag "g" = d.nodes.map nodeElement ++ d.edges.map edgeElement := by
  have hnodes : ∀ v, (nodeElement v).withTag "g" = [nodeElement v] := fun v => by
    rw [withTag_node v (by decide)]
    rfl
  have hedges : ∀ e, (edgeElement e).withTag "g" = [edgeElement e] := fun e => by
    rw [withTag_edge]
    rfl
  rw [withTag_document d (by decide) (by decide) (by decide), List.map_eq_flatMap,
    List.map_eq_flatMap]
  simp only [hnodes, hedges]
  rfl

end Tags

/-! ### What a document shows -/

end Scene

namespace Xml.Node

/-- The groups of a class. -/
def groups (kind : String) (root : Node) : List Node :=
  (root.named "g").filter (·.attribute? "class" == some kind)

/-- The label that a text shows: its lines, or what is in it. -/
def label (n : Node) : String :=
  match n.named "tspan" with
  | [] => n.content
  | lines => "\n".intercalate (lines.map content)

/-- The document shows a graph in a font family: one marker, then a group for each node with its id
and its label, then a group for each edge with its ends, which ends in the marker. -/
structure Pictures (g : Graph Float) (family : String) (root : Node) : Prop where
  family : root.attribute? "font-family" = some (family ++ ", sans-serif")
  marker : (root.named "marker").map (·.attribute? "id") = [some Scene.arrowId]
  nodes : (root.groups "node").map (fun n =>
      (n.attribute? "data-id", (n.named "text").map label)) =
    g.nodes.map fun v => (some v.id, [v.label])
  edges : (root.groups "edge").map (fun n => (n.attribute? "data-source",
      n.attribute? "data-target", (n.named "path").map (·.attribute? "marker-end"))) =
    g.edges.map fun e =>
      (some e.source, some e.target, [some ("url(#" ++ Scene.arrowId ++ ")")])
  order : ∃ defs, root.children = defs :: (root.groups "node" ++ root.groups "edge")

end Xml.Node

namespace Scene

open Element

theorem content_leaf (tag : String) (attributes : Svg.Attributes) (text : String) :
    (Element.leaf tag attributes text).tree.content = text := by
  rw [tree, Xml.Node.content]
  split
  · next hempty =>
    obtain rfl : text = "" := by simpa using hempty
    rfl
  · exact String.append_empty

theorem label_tree {v : NodeShape Float} (h : v.lines ≠ []) :
    (labelElement v).tree.label = "\n".intercalate v.lines := by
  rcases labelElement_cases v with ⟨line, hline, hlabel⟩ | ⟨-, hlabel⟩
  · have hnone : (Element.leaf "text" (labelAttributes v) line).tree.named "tspan" = [] := by
      rw [named_tree, withTag_leaf]
      rfl
    rw [hlabel, Xml.Node.label, hnone, hline]
    exact content_leaf _ _ _
  · rw [hlabel, Xml.Node.label]
    set es := lineElements (number v.center.x) v.lines.length 0 v.lines with hes
    have hlines := lineElements_forall₂ (number v.center.x) v.lines.length 0 v.lines
    rw [← hes] at hlines
    have hall : (Element.branch "text" (labelAttributes v) es).tree.named "tspan" =
        es.map tree := by
      rw [named_tree, withTag_branch, hes, withTag_lines]
      rfl
    have hcontent : (es.map tree).map Xml.Node.content = v.lines := by
      rw [List.map_map]
      refine ((map_eq_of_forall₂ hlines ?_).symm.trans (List.map_id _))
      rintro line e ⟨dy, rfl⟩
      exact (content_leaf _ _ _).symm
    rw [hall]
    cases htrees : es.map tree with
    | nil =>
      rw [htrees] at hcontent
      exact absurd hcontent.symm h
    | cons t ts =>
      rw [htrees] at hcontent
      dsimp only
      rw [hcontent]

theorem class_node (v : NodeShape Float) : (nodeElement v).tree.attribute? "class" = some "node" := by
  rw [attribute?_tree]
  rfl

theorem class_edge (e : EdgeShape Float) : (edgeElement e).tree.attribute? "class" = some "edge" := by
  rw [attribute?_tree]
  rfl

theorem groups_tree (d : Drawing Float) :
    (document d).tree.groups "node" = d.nodes.map (fun v => (nodeElement v).tree) ∧
      (document d).tree.groups "edge" = d.edges.map fun e => (edgeElement e).tree := by
  have hgroups : (document d).tree.named "g" =
      d.nodes.map (fun v => (nodeElement v).tree) ++ d.edges.map fun e => (edgeElement e).tree := by
    rw [named_tree, withTag_document_group, List.map_append, List.map_map, List.map_map]
    rfl
  have hnode : ∀ kind, ∀ n ∈ d.nodes.map (fun v => (nodeElement v).tree),
      (n.attribute? "class" == some kind) = ("node" == kind) := by
    intro kind n hn
    obtain ⟨v, -, rfl⟩ := List.mem_map.mp hn
    rw [class_node]
    rfl
  have hedge : ∀ kind, ∀ n ∈ d.edges.map (fun e => (edgeElement e).tree),
      (n.attribute? "class" == some kind) = ("edge" == kind) := by
    intro kind n hn
    obtain ⟨e, -, rfl⟩ := List.mem_map.mp hn
    rw [class_edge]
    rfl
  constructor
  · rw [Xml.Node.groups, hgroups, List.filter_append, List.filter_congr (hnode "node"),
      List.filter_congr (hedge "node")]
    simp
  · rw [Xml.Node.groups, hgroups, List.filter_append, List.filter_congr (hnode "edge"),
      List.filter_congr (hedge "edge")]
    simp

theorem treeOf_eq_map (es : List Element) : treeOf es = es.map tree := by
  induction es with
  | nil => rfl
  | cons e es ih => rw [treeOf, ih, List.map_cons]

/-- **What a document shows** is the graph that was drawn. -/
theorem pictures_tree {g : Graph Float} {d : Drawing Float} (h : Draws g d) :
    (document d).tree.Pictures g d.fontFamily := by
  obtain ⟨hnodes, hedges⟩ := groups_tree d
  refine ⟨?_, ?_, ?_, ?_, ?_⟩
  · rw [attribute?_tree]
    rfl
  · rw [named_tree, withTag_document_marker]
    rfl
  · rw [hnodes, List.map_map]
    refine (map_eq_of_forall₂ h.nodes ?_).symm
    rintro v shape ⟨hid, hlines⟩
    have hne : shape.lines ≠ [] := hlines ▸ splitOnNewline_ne_nil v.label
    have htext : ((nodeElement shape).tree.named "text").map Xml.Node.label = [v.label] := by
      rw [named_tree, withTag_node shape (by decide)]
      show [(labelElement shape).tree.label] = [v.label]
      rw [label_tree hne, hlines, intercalate_splitOnNewline]
    rw [Function.comp_apply, htext, attribute?_tree, ← hid]
    rfl
  · rw [hedges, List.map_map]
    refine (map_eq_of_forall₂ h.edges ?_).symm
    rintro e shape ⟨hsource, htarget⟩
    have hpath : ((edgeElement shape).tree.named "path").map (·.attribute? "marker-end") =
        [some ("url(#" ++ arrowId ++ ")")] := by
      rw [named_tree, withTag_edge]
      rfl
    rw [Function.comp_apply, hpath, attribute?_tree, attribute?_tree, ← hsource, ← htarget]
    rfl
  · refine ⟨(Element.branch "defs" [] [marker d]).tree, ?_⟩
    rw [hnodes, hedges, document, tree, Xml.Node.children, treeOf_eq_map, List.map_cons,
      List.map_append, List.map_map, List.map_map]
    rfl

/-! ### Elements and attributes by their names -/

/-- An element with the names of its attributes. -/
def bare (name : String) (attributes : List String) (children : List Xml.Node) : Xml.Node :=
  .element ⟨name, attributes.map (·, "")⟩ children

/-- The elements of a node with a label of `count` lines. -/
def nodeSkeleton (count : ℕ) : Xml.Node :=
  bare "g" ["class", "data-id"]
    [bare "path" ["class", "d", "stroke", "stroke-width", "fill"] [],
     bare "text" ["class", "x", "y", "text-anchor"]
      (if count = 1 then [] else List.replicate count (bare "tspan" ["x", "dy"] []))]

/-- The elements of an edge. -/
def edgeSkeleton : Xml.Node :=
  bare "g" ["class", "data-source", "data-target"]
    [bare "path" ["class", "d", "stroke", "stroke-width", "fill", "marker-end"] []]

/-- The elements of a document, by the numbers of lines of the labels and the number of edges. -/
def documentSkeleton (lineCounts : List ℕ) (edges : ℕ) : Xml.Node :=
  bare "svg" ["xmlns", "width", "height", "viewBox", "font-family", "font-size"]
    (bare "defs" [] [bare "marker" ["id", "viewBox", "refX", "refY", "markerUnits", "markerWidth",
        "markerHeight", "orient"]
      [bare "path" ["class", "d", "fill", "stroke"] [],
       bare "path" ["class", "d", "stroke", "stroke-width", "fill"] []]] ::
      (lineCounts.map nodeSkeleton ++ List.replicate edges edgeSkeleton))

theorem skeletonOf_treeOf (es : List Element) :
    Xml.Node.skeletonOf (treeOf es) = es.map fun e => e.tree.skeleton := by
  induction es with
  | nil => rfl
  | cons e es ih =>
    rw [treeOf, List.map_cons, ← ih]
    cases e <;> rfl

theorem skeleton_branch (tag : String) (attributes : Svg.Attributes) (es : List Element) :
    (Element.branch tag attributes es).tree.skeleton =
      bare tag (attributes.map (·.1)) (es.map fun e => e.tree.skeleton) := by
  rw [tree, Xml.Node.skeleton, skeletonOf_treeOf, bare, List.map_map]
  rfl

theorem skeleton_label (v : NodeShape Float) : (labelElement v).tree.skeleton =
    bare "text" ["class", "x", "y", "text-anchor"] (if v.lines.length = 1 then [] else
      List.replicate v.lines.length (bare "tspan" ["x", "dy"] [])) := by
  rcases labelElement_cases v with ⟨line, hline, hlabel⟩ | ⟨hmany, hlabel⟩
  · rw [hlabel, hline, tree, Xml.Node.skeleton]
    split <;> rfl
  · have hlines : v.lines.map (fun _ => bare "tspan" ["x", "dy"] []) =
        (lineElements (number v.center.x) v.lines.length 0 v.lines).map
          fun e => e.tree.skeleton := by
      refine map_eq_of_forall₂ (lineElements_forall₂ _ _ _ _) ?_
      rintro line e ⟨dy, rfl⟩
      rw [tree, Xml.Node.skeleton]
      split <;> rfl
    rw [hlabel, skeleton_branch, if_neg hmany, ← hlines, List.map_const']
    rfl

theorem skeleton_node (v : NodeShape Float) :
    (nodeElement v).tree.skeleton = nodeSkeleton v.lines.length := by
  rw [nodeElement, skeleton_branch, nodeSkeleton, ← skeleton_label]
  rfl

theorem skeleton_edge (e : EdgeShape Float) : (edgeElement e).tree.skeleton = edgeSkeleton := rfl

/-- **The elements and the names of their attributes** depend on nothing but the number of lines of
each label and the number of edges. -/
theorem skeleton_tree (d : Drawing Float) : (document d).tree.skeleton =
    documentSkeleton (d.nodes.map (·.lines.length)) d.edges.length := by
  have hnodes : (d.nodes.map nodeElement).map (fun e => e.tree.skeleton) =
      (d.nodes.map (·.lines.length)).map nodeSkeleton := by
    rw [List.map_map, List.map_map]
    exact List.map_congr_left fun v _ => skeleton_node v
  have hedges : (d.edges.map edgeElement).map (fun e => e.tree.skeleton) =
      List.replicate d.edges.length edgeSkeleton := by
    rw [List.map_map, ← List.map_const']
    exact List.map_congr_left fun e _ => skeleton_edge e
  rw [document, skeleton_branch, documentSkeleton, ← hnodes, ← hedges, ← List.map_append]
  rfl

/-! ### Rendered graphs -/

/-- **The document of a drawing is read back**, whatever its strokes and numbers are. -/
theorem read_document {g : Graph Float} {d : Drawing Float} (h : Draws g d)
    (hfamily : Xml.Legal d.fontFamily)
    (hnodes : ∀ v ∈ g.nodes, Xml.Legal v.id ∧ Xml.Legal v.label ∧ '\r' ∉ v.label.toList)
    (hedges : ∀ e ∈ g.edges, Xml.Legal e.source ∧ Xml.Legal e.target) :
    ∃ root, Xml.read (document d).render = some root ∧ root.pruned = (document d).tree ∧
      root.pruned.Pictures g d.fontFamily ∧
      root.pruned.skeleton = documentSkeleton
        (g.nodes.map fun v => (splitOnNewline v.label).length) g.edges.length := by
  have hlegal : (document d).Everywhere IsLegal :=
    (legal_drawn h).mpr ⟨hfamily, fun v hv => ⟨(hnodes v hv).1, (hnodes v hv).2.1⟩, hedges⟩
  have hreturn : (document d).Everywhere NoReturn := by
    have hlabels : ∀ v ∈ g.nodes, '\r' ∉ v.label.toList := fun v hv => (hnodes v hv).2.2
    refine noReturn_document ((forall_iff_of_forall₂ h.nodes ?_).mp hlabels)
    rintro v shape ⟨-, hlines⟩
    rw [hlines, return_not_mem_lines]
  have hcounts : g.nodes.map (fun v => (splitOnNewline v.label).length) =
      d.nodes.map (·.lines.length) := by
    refine map_eq_of_forall₂ h.nodes ?_
    rintro v shape ⟨-, hlines⟩
    rw [hlines]
  have hpruned := pruned_indented 0 (document d) hreturn
  refine ⟨_, (read_render (named_document d)).1 hlegal, hpruned, ?_, ?_⟩
  · rw [hpruned]
    exact pictures_tree h
  · rw [hpruned, skeleton_tree, hcounts, h.edges.length_eq]

/-- **A rendered graph is read back.**  If the ids, labels and ends and the font family are of
characters that a document may have, and no label has a carriage return, a graph with all its
geometry is rendered unless a number stops a stroke.  What is read of it is what was drawn, but for
white space between elements; it shows the graph; and its elements and their attributes depend on
nothing but the number of lines of each label and the number of edges. -/
theorem render_reads {style : Style Float} {g : Graph Float} (hg : g.geometryFault? = none)
    (hs : ¬ style.sketchiness < 0.0) (hfamily : Xml.Legal style.fontFamily)
    (hnodes : ∀ v ∈ g.nodes, Xml.Legal v.id ∧ Xml.Legal v.label ∧ '\r' ∉ v.label.toList)
    (hedges : ∀ e ∈ g.edges, Xml.Legal e.source ∧ Xml.Legal e.target) (seed : ℤ) :
    (∃ n, render style seed g = .error (.stroke (.number n)) ∧ n.Arises Float) ∨
    ∃ s root, render style seed g = .ok s ∧ Xml.read s.toSvg = some root ∧
      root.pruned = s.root.tree ∧ root.pruned.Pictures g style.fontFamily ∧
      root.pruned.skeleton = documentSkeleton
        (g.nodes.map fun v => (splitOnNewline v.label).length) g.edges.length := by
  cases hdraw : draw style (Random.Twister.ofSeed seed) g with
  | error fault =>
    obtain ⟨n, rfl, hn⟩ := draw_fault hg (by with_reducible_and_instances exact hs) hdraw
    refine Or.inl ⟨n, ?_, hn⟩
    rw [render, hdraw]
    rfl
  | ok d =>
    obtain ⟨hdraws, hdrawn⟩ := draw_ok hdraw
    rw [← hdrawn] at hfamily ⊢
    obtain ⟨root, hread⟩ := read_document hdraws hfamily hnodes hedges
    refine Or.inr ⟨⟨document d, d.width, d.height⟩, root, ?_, hread⟩
    rw [render, hdraw]
    rfl

/-- A graph with marks, references, blanks and line ends in its ids and labels. -/
def markedGraph : Graph Float :=
  { nodes := [
      { id := "<a id=\"1\">", label := " \n]]> & </svg>\n", width := some 96.0, height := some 56.0,
        x := some 60.0, y := some 40.0 },
      { id := "b\r\n'&#10;", label := "<!-- b -->", width := some 96.0, height := some 56.0,
        x := some 60.0, y := some 140.0 }]
    edges := [
      { source := "<a id=\"1\">", target := "b\r\n'&#10;",
        points := [⟨60.0, 68.0⟩, ⟨60.0, 112.0⟩] }]
    marginX := 10.0, marginY := 10.0, nodeGap := 50.0, rankGap := 50.0
    width := some 120.0, height := some 180.0 }

/-- A style with marks in its font family, and without roughness. -/
def markedStyle : Style Float := ⟨0.0, "A\" & <B>", 16.0⟩

/-- Nothing stops the strokes of the graph.  (A stroke is squared by the power function of the
doubles, of which only exact squares are known here; the sides of these rectangles are such.) -/
theorem exists_render_marked (seed : ℤ) : ∃ s, render markedStyle seed markedGraph = .ok s := by
  have hzero : Decimal.IsZero markedStyle.sketchiness := ⟨.positive, rfl⟩
  have hquiet : (draw markedStyle Quiet.mk markedGraph).isOk = true := by decide +kernel
  exact exists_render hzero hquiet seed

/-- The marks are read as they are, and no element is read from them. -/
theorem render_reads_marked : ∃ s root, render markedStyle 0 markedGraph = .ok s ∧
    Xml.read s.toSvg = some root ∧ root.pruned = s.root.tree ∧
    root.pruned.Pictures markedGraph "A\" & <B>" ∧
    root.pruned.skeleton = documentSkeleton [3, 1] 1 := by
  have hgeometry : markedGraph.geometryFault? = none := by decide +kernel
  have hsketchiness : ¬ markedStyle.sketchiness < 0.0 := by decide +kernel
  have hfamily : Xml.Legal markedStyle.fontFamily := by decide
  have hnodes : ∀ v ∈ markedGraph.nodes,
      Xml.Legal v.id ∧ Xml.Legal v.label ∧ '\r' ∉ v.label.toList := by decide
  have hedges : ∀ e ∈ markedGraph.edges, Xml.Legal e.source ∧ Xml.Legal e.target := by decide
  obtain ⟨s, hs⟩ := exists_render_marked 0
  rcases render_reads hgeometry hsketchiness hfamily hnodes hedges 0 with ⟨n, hfault, -⟩ | hreads
  · rw [hs] at hfault
    cases hfault
  · exact hreads

end Scene

end Scrawl
