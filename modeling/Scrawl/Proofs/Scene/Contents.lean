import Scrawl.Proofs.Rendering
import Scrawl.Proofs.Svg.Reading
import Scrawl.Proofs.Text.Pieces

/-!
# Scrawl.Proofs.Scene.Contents — what a drawing has of a graph

A drawing has the ids of the nodes, the lines of their labels and the ends of the edges, all in the
order of the graph.  Its document has nothing else that is not fixed or a number.

* `draw_ok`: the ids, lines and ends in a drawing.
* `intercalate_splitOnNewline`: the lines of a label make up the label.
* `named_document`: tags and attributes of a document have names.
* `legal_document`, `legal_drawn`: when the characters of a document are ones that it may have.
-/

namespace Scrawl

/-! ### Lists side by side -/

section SideBySide

variable {β γ δ : Type} {r : β → γ → Prop} {bs : List β} {cs : List γ}

theorem forall_iff_of_forall₂ {p : β → Prop} {q : γ → Prop} (h : List.Forall₂ r bs cs)
    (hpq : ∀ b c, r b c → (p b ↔ q c)) : (∀ b ∈ bs, p b) ↔ ∀ c ∈ cs, q c := by
  induction h with
  | nil => exact iff_of_true (fun _ hb => absurd hb List.not_mem_nil) fun _ hc =>
      absurd hc List.not_mem_nil
  | cons hr _ ih => rw [List.forall_mem_cons, List.forall_mem_cons, ih, hpq _ _ hr]

theorem map_eq_of_forall₂ {f : β → δ} {k : γ → δ} (h : List.Forall₂ r bs cs)
    (hfk : ∀ b c, r b c → f b = k c) : bs.map f = cs.map k := by
  induction h with
  | nil => rfl
  | cons hr _ ih => rw [List.map_cons, List.map_cons, ih, hfk _ _ hr]

theorem exists_of_mem_right (h : List.Forall₂ r bs cs) {c : γ} (hc : c ∈ cs) : ∃ b ∈ bs, r b c := by
  induction h with
  | nil => cases hc
  | cons hr _ ih =>
    rcases List.mem_cons.mp hc with rfl | hc
    · exact ⟨_, List.mem_cons_self, hr⟩
    · obtain ⟨b, hb, hbc⟩ := ih hc
      exact ⟨b, List.mem_cons_of_mem _ hb, hbc⟩

theorem exists_getElem?_of_forall₂ (h : List.Forall₂ r bs cs) {i : ℕ} {b : β}
    (hb : bs[i]? = some b) : ∃ c, cs[i]? = some c ∧ r b c := by
  induction h generalizing i with
  | nil => cases hb
  | cons hr _ ih =>
    cases i with
    | zero =>
      obtain rfl := Option.some.inj hb
      exact ⟨_, rfl, hr⟩
    | succ i => exact ih hb

theorem forall₂_trans {s : γ → δ → Prop} {t : β → δ → Prop} {ds : List δ}
    (h : List.Forall₂ r bs cs) (h' : List.Forall₂ s cs ds) (hrs : ∀ b c d, r b c → s c d → t b d) :
    List.Forall₂ t bs ds := by
  induction h generalizing ds with
  | nil =>
    cases h'
    exact .nil
  | cons hr _ ih =>
    cases h' with
    | cons hs hrest => exact .cons (hrs _ _ _ hr hs) (ih hrest)

theorem forall₂_filterMap {f : β → Option γ} (h : ∀ b ∈ bs, ∃ c, f b = some c ∧ r b c) :
    List.Forall₂ r bs (bs.filterMap f) := by
  induction bs with
  | nil => exact .nil
  | cons b bs ih =>
    obtain ⟨⟨c, hc, hr⟩, hrest⟩ := List.forall_mem_cons.mp h
    rw [List.filterMap_cons_some hc]
    exact .cons hr (ih hrest)

end SideBySide

/-! ### What a sketch gives -/

namespace Stroke

variable {σ β γ : Type}

/-- What the sketch gives has the property. -/
def Gives (p : β → Prop) (x : Sketch σ β) : Prop := ∀ s b rest, x s = (.ok b, rest) → p b

namespace Gives

theorem pure {p : β → Prop} {b : β} (h : p b) : Gives p (pure b : Sketch σ β) := by
  intro s b' rest hrun
  cases hrun
  exact h

theorem bind {p : β → Prop} {q : γ → Prop} {x : Sketch σ β} {f : β → Sketch σ γ} (hx : Gives p x)
    (hf : ∀ b, p b → Gives q (f b)) : Gives q (x >>= f) := by
  intro s c rest h
  obtain ⟨b, between, hb, hc⟩ := bind_ok h
  exact hf b (hx s b between hb) between c rest hc

theorem mono {p q : β → Prop} {x : Sketch σ β} (hx : Gives p x) (hpq : ∀ b, p b → q b) :
    Gives q x :=
  fun s b rest h => hpq b (hx s b rest h)

theorem anything (x : Sketch σ β) : Gives (fun _ => True) x := fun _ _ _ _ => trivial

/-- A sketch for each item gives one thing for each, in order. -/
theorem mapM {r : β → γ → Prop} {f : β → Sketch σ γ} {l : List β}
    (h : ∀ b ∈ l, Gives (r b) (f b)) : Gives (List.Forall₂ r l) (l.mapM f) := by
  induction l with
  | nil => exact pure .nil
  | cons b l ih =>
    obtain ⟨hb, hl⟩ := List.forall_mem_cons.mp h
    rw [List.mapM_cons]
    exact hb.bind fun c hc => (ih hl).bind fun cs hcs => pure (.cons hc hcs)

end Gives

end Stroke

namespace Scene

open Stroke Text

variable {σ α : Type} [Scalar α] [Source σ α]

omit [Scalar α] [Source σ α] in
theorem ok_of_runSketch {β : Type} {x : Sketch σ β} {source : σ} {b : β} {rest : σ}
    (h : runSketch x source = (.ok (b, rest) : Except (RenderFault α) _)) :
    x source = (.ok b, rest) := by
  unfold runSketch at h
  split at h
  · next hrun =>
    cases h
    exact hrun
  · cases h

omit [Scalar α] [Source σ α] in
theorem gives_of_runSketch {β : Type} {p : β → Prop} {x : Sketch σ β} (hx : Gives p x) {source : σ}
    {b : β} {rest : σ} (h : runSketch x source = (.ok (b, rest) : Except (RenderFault α) _)) :
    p b :=
  hx _ _ _ (ok_of_runSketch h)

theorem gives_drawNode (pen : Pen α) (id label : String) (size : α × α) (center : Point α) :
    Gives (fun v => v.id = id ∧ v.lines = splitOnNewline label)
      (drawNode pen id label size center : Sketch σ (NodeShape α)) :=
  (Gives.anything _).bind fun _ _ => (Gives.anything _).bind fun _ _ => Gives.pure ⟨rfl, rfl⟩

theorem gives_drawEdge (pen : Pen α) (e : Edge α) :
    Gives (fun shape => shape.source = e.source ∧ shape.target = e.target)
      (drawEdge pen e : Sketch σ (EdgeShape α)) :=
  (Gives.anything _).bind fun _ _ => Gives.pure ⟨rfl, rfl⟩

omit [Scalar α] [Source σ α] in
/-- A graph that can be drawn has all its nodes drawn, and its size. -/
theorem resolve_parts {g : Graph α} {r : Resolved α} (h : resolve g = .ok r) :
    List.Forall₂ (fun v n => ∃ size center, v.size? = some size ∧ v.center? = some center ∧
        n = (v.id, v.label, size, center)) g.nodes r.nodes ∧
      r.edges = g.edges ∧ g.width = some r.width ∧ g.height = some r.height := by
  unfold resolve at h
  split at h
  · cases h
  next hnone =>
  obtain ⟨hsized, hplaced, -⟩ := Graph.geometryFault?_eq_none.mp hnone
  split at h
  · next width height hwidth hheight =>
    cases h
    refine ⟨forall₂_filterMap fun v hv => ?_, rfl, hwidth, hheight⟩
    obtain ⟨hw, hh⟩ := Bool.and_eq_true_iff.mp (hsized v hv)
    obtain ⟨hx, hy⟩ := Bool.and_eq_true_iff.mp (hplaced v hv)
    obtain ⟨w, hw⟩ := Option.isSome_iff_exists.mp hw
    obtain ⟨k, hh⟩ := Option.isSome_iff_exists.mp hh
    obtain ⟨x, hx⟩ := Option.isSome_iff_exists.mp hx
    obtain ⟨y, hy⟩ := Option.isSome_iff_exists.mp hy
    have hsize : v.size? = some (w, k) := by rw [Node.size?, hw, hh]
    have hcenter : v.center? = some ⟨x, y⟩ := by rw [Node.center?, hx, hy]
    exact ⟨_, by rw [hsize, hcenter], _, _, hsize, hcenter, rfl⟩
  · cases h

/-- The stages of a drawing: its head, its nodes and its edges. -/
theorem draw_parts {style : Style α} {source : σ} {g : Graph α} {d : Drawing α}
    (h : draw style source g = .ok d) : ∃ r, resolve g = .ok r ∧ d.fontFamily = style.fontFamily ∧
      (∃ rest, runSketch (drawHead r.width r.height style.fontSize) source =
        (.ok ((d.width, d.height, d.fontSize), rest) : Except (RenderFault α) _)) ∧
      ∃ between rest,
        runSketch (r.nodes.mapM fun (id, label, size, center) =>
          drawNode (mainPen style.sketchiness) id label size center) source =
            (.ok (d.nodes, between) : Except (RenderFault α) _) ∧
        runSketch (r.edges.mapM (drawEdge (mainPen style.sketchiness))) between =
          (.ok (d.edges, rest) : Except (RenderFault α) _) := by
  unfold draw at h
  obtain ⟨r, hr, h⟩ := Description.ok_of_bind_ok h
  have hresolve : resolve g = .ok r := by
    cases hr' : resolve g with
    | error fault =>
      rw [hr'] at hr
      cases hr
    | ok r' =>
      rw [hr'] at hr
      exact congrArg Except.ok (Except.ok.inj hr)
  dsimp only at h
  split_ifs at h
  · cases h
  obtain ⟨⟨_, rest⟩, hhead, h⟩ := Description.ok_of_bind_ok h
  obtain ⟨_, -, h⟩ := Description.ok_of_bind_ok h
  obtain ⟨⟨nodes, between⟩, hnodes, h⟩ := Description.ok_of_bind_ok h
  obtain ⟨⟨edges, rest'⟩, hedges, h⟩ := Description.ok_of_bind_ok h
  cases h
  exact ⟨r, hresolve, rfl, ⟨rest, hhead⟩, between, rest', hnodes, hedges⟩

/-- What is drawn for every node, where it stands. -/
theorem forall₂_drawNode {style : Style α} {source : σ} {g : Graph α} {d : Drawing α}
    {p : String → String → α × α → Point α → NodeShape α → Prop}
    (hp : ∀ id label size center, Gives (p id label size center)
      (drawNode (mainPen style.sketchiness) id label size center : Sketch σ (NodeShape α)))
    (h : draw style source g = .ok d) :
    List.Forall₂ (fun v shape => ∃ size center, v.size? = some size ∧ v.center? = some center ∧
      p v.id v.label size center shape) g.nodes d.nodes := by
  obtain ⟨r, hresolve, -, -, between, rest, hrun, -⟩ := draw_parts h
  have hdrawn := gives_of_runSketch
    (Gives.mapM fun n _ => hp n.1 n.2.1 n.2.2.1 n.2.2.2) hrun
  refine forall₂_trans (resolve_parts hresolve).1 hdrawn ?_
  rintro v _ shape ⟨size, center, hsize, hcenter, rfl⟩ hshape
  exact ⟨size, center, hsize, hcenter, hshape⟩

/-- What a drawing has of a graph: its ids, the lines of its labels, and the ends of its edges. -/
structure Draws (g : Graph α) (d : Drawing α) : Prop where
  nodes : List.Forall₂ (fun v shape => shape.id = v.id ∧ shape.lines = splitOnNewline v.label)
    g.nodes d.nodes
  edges : List.Forall₂ (fun e shape => shape.source = e.source ∧ shape.target = e.target)
    g.edges d.edges

/-- **A drawing has all of its graph**, in order, and the font family of its style. -/
theorem draw_ok {style : Style α} {source : σ} {g : Graph α} {d : Drawing α}
    (h : draw style source g = .ok d) : Draws g d ∧ d.fontFamily = style.fontFamily := by
  obtain ⟨r, hresolve, hfamily, -, between, rest, -, hrun⟩ := draw_parts h
  refine ⟨⟨?_, ?_⟩, hfamily⟩
  · refine (forall₂_drawNode (gives_drawNode _) h).imp fun v shape hshape => ?_
    obtain ⟨_, _, -, -, hdrawn⟩ := hshape
    exact hdrawn
  · rw [(resolve_parts hresolve).2.1] at hrun
    exact gives_of_runSketch (Gives.mapM fun e _ => gives_drawEdge _ e) hrun

/-! ### Lines -/

/-- **The lines of a label make up the label.** -/
theorem intercalate_splitOnNewline (s : String) : "\n".intercalate (splitOnNewline s) = s := by
  apply String.ext
  rw [String.toList_intercalate, splitOnNewline, List.map_map]
  have hchars : String.toList ∘ String.ofList = id := funext fun _ => String.toList_ofList
  rw [hchars, List.map_id]
  exact intercalate_splitOnChar '\n' s.toList

theorem splitOnNewline_ne_nil (s : String) : splitOnNewline s ≠ [] := by
  rw [splitOnNewline]
  exact mt List.map_eq_nil_iff.mp (splitOnChar_ne_nil _ _)

/-- The characters of the lines of a label are those of the label, but for the line feeds. -/
theorem mem_line {s : String} {c : Char} :
    (∃ line ∈ splitOnNewline s, c ∈ line.toList) ↔ c ∈ s.toList ∧ c ≠ '\n' := by
  rw [← mem_splitOnChar, splitOnNewline]
  simp

theorem legal_lines (s : String) : (∀ line ∈ splitOnNewline s, Xml.Legal line) ↔ Xml.Legal s := by
  have hfeed : Xml.isChar '\n' := by decide
  constructor
  · intro h c hc
    by_cases hn : c = '\n'
    · exact hn ▸ hfeed
    · obtain ⟨line, hline, hc⟩ := mem_line.mpr ⟨hc, hn⟩
      exact h line hline c hc
  · intro h line hline c hc
    exact h c (mem_line.mp ⟨line, hline, hc⟩).1

theorem return_not_mem_lines (s : String) :
    (∀ line ∈ splitOnNewline s, '\r' ∉ line.toList) ↔ '\r' ∉ s.toList := by
  constructor
  · intro h hreturn
    obtain ⟨line, hline, hreturn⟩ := mem_line.mpr ⟨hreturn, by decide⟩
    exact h line hline hreturn
  · intro h line hline hreturn
    exact h (mem_line.mp ⟨line, hline, hreturn⟩).1

/-! ### Documents -/

section Documents

open Svg Element

theorem named_of {e : Element} (tag : String) (names : List String) (htag : e.tag = tag)
    (h : e.attributes.map (·.1) = names)
    (hnames : isName tag && names.all isName && decide names.Nodup) : e.Named := by
  subst htag h
  simp only [Bool.and_eq_true, decide_eq_true_eq, List.all_eq_true] at hnames
  exact ⟨hnames.1.1, fun a ha => hnames.1.2 _ (List.mem_map_of_mem ha), hnames.2⟩

/-- The lines of a label, each in an element of its own. -/
theorem lineElements_forall₂ (x : String) (count i : ℕ) (lines : List String) :
    List.Forall₂ (fun line e => ∃ dy, e = .leaf "tspan" [("x", x), ("dy", number dy ++ "em")] line)
      lines (lineElements x count i lines) := by
  induction lines generalizing i with
  | nil => exact .nil
  | cons line lines ih => exact .cons ⟨_, rfl⟩ (ih (i + 1))

/-- The attributes of a label. -/
def labelAttributes (v : NodeShape Float) : Svg.Attributes :=
  [("class", "label"), ("x", number v.center.x), ("y", number v.center.y),
   ("text-anchor", "middle")]

theorem labelElement_cases (v : NodeShape Float) :
    (∃ line, v.lines = [line] ∧ labelElement v = .leaf "text" (labelAttributes v) line) ∨
    (v.lines.length ≠ 1 ∧ labelElement v = .branch "text" (labelAttributes v)
      (lineElements (number v.center.x) v.lines.length 0 v.lines)) := by
  unfold labelElement
  dsimp only
  split
  · next line hline => exact Or.inl ⟨line, hline, rfl⟩
  · next hmany =>
    refine Or.inr ⟨fun hone => ?_, rfl⟩
    obtain ⟨line, hline⟩ := List.length_eq_one_iff.mp hone
    exact hmany line hline

section Everywhere

variable {p : Element → Prop}

theorem everywhere_path {kind : String} {path : Stroke.Path Float} {style : Svg.Attributes} :
    (pathElement kind path style).Everywhere p ↔ p (pathElement kind path style) :=
  everywhere_leaf

theorem everywhere_marker {d : Drawing Float} : (marker d).Everywhere p ↔ p (marker d) ∧
    p (pathElement "arrowhead-fill" d.arrowFill [("fill", strokeColor), ("stroke", "none")]) ∧
    p (pathElement "arrowhead" d.arrowOutline (strokeStyle "0.5")) := by
  rw [marker, everywhere_branch, List.forall_mem_cons, List.forall_mem_singleton, everywhere_path,
    everywhere_path]

theorem everywhere_node {v : NodeShape Float} : (nodeElement v).Everywhere p ↔
    p (nodeElement v) ∧ p (pathElement "node-shape" v.outline (strokeStyle "1")) ∧
      (labelElement v).Everywhere p := by
  rw [nodeElement, everywhere_branch, List.forall_mem_cons, List.forall_mem_singleton,
    everywhere_path]

theorem everywhere_edge {e : EdgeShape Float} : (edgeElement e).Everywhere p ↔
    p (edgeElement e) ∧ p (pathElement "edge-path" e.path
      (strokeStyle "1" ++ [("marker-end", "url(#" ++ arrowId ++ ")")])) := by
  rw [edgeElement, everywhere_branch, List.forall_mem_singleton, everywhere_path]

theorem everywhere_document {d : Drawing Float} : (document d).Everywhere p ↔
    p (document d) ∧ p (.branch "defs" [] [marker d]) ∧ (marker d).Everywhere p ∧
      (∀ v ∈ d.nodes, (nodeElement v).Everywhere p) ∧
      ∀ e ∈ d.edges, (edgeElement e).Everywhere p := by
  rw [document, everywhere_branch, List.forall_mem_cons, everywhere_branch,
    List.forall_mem_singleton, List.forall_mem_append, List.forall_mem_map, List.forall_mem_map,
    and_assoc]

end Everywhere

/-! ### Names -/

theorem named_label (v : NodeShape Float) : (labelElement v).Everywhere Named := by
  rcases labelElement_cases v with ⟨line, -, hlabel⟩ | ⟨-, hlabel⟩
  · rw [hlabel, everywhere_leaf]
    exact named_of "text" ["class", "x", "y", "text-anchor"] rfl rfl (by decide)
  · rw [hlabel, everywhere_branch]
    refine ⟨named_of "text" ["class", "x", "y", "text-anchor"] rfl rfl (by decide), ?_⟩
    refine (forall_iff_of_forall₂ (lineElements_forall₂ _ _ _ _) ?_).mp fun _ _ => trivial
    rintro line e ⟨dy, rfl⟩
    exact iff_of_true trivial
      (everywhere_leaf.mpr (named_of "tspan" ["x", "dy"] rfl rfl (by decide)))

/-- **All tags and attributes of a document have names.** -/
theorem named_document (d : Drawing Float) : (document d).Everywhere Named := by
  refine everywhere_document.mpr ⟨?_, ?_, everywhere_marker.mpr ⟨?_, ?_, ?_⟩, ?_, ?_⟩
  · exact named_of "svg" ["xmlns", "width", "height", "viewBox", "font-family", "font-size"] rfl rfl
      (by decide)
  · exact named_of "defs" [] rfl rfl (by decide)
  · exact named_of "marker" ["id", "viewBox", "refX", "refY", "markerUnits", "markerWidth",
      "markerHeight", "orient"] rfl rfl (by decide)
  · exact named_of "path" ["class", "d", "fill", "stroke"] rfl rfl (by decide)
  · exact named_of "path" ["class", "d", "stroke", "stroke-width", "fill"] rfl rfl (by decide)
  · intro v _
    refine everywhere_node.mpr ⟨?_, ?_, named_label v⟩
    · exact named_of "g" ["class", "data-id"] rfl rfl (by decide)
    · exact named_of "path" ["class", "d", "stroke", "stroke-width", "fill"] rfl rfl (by decide)
  · intro e _
    refine everywhere_edge.mpr ⟨?_, ?_⟩
    · exact named_of "g" ["class", "data-source", "data-target"] rfl rfl (by decide)
    · exact named_of "path" ["class", "d", "stroke", "stroke-width", "fill", "marker-end"] rfl rfl
        (by decide)

/-! ### Characters -/

theorem legal_path {kind : String} {style : Svg.Attributes} (path : Stroke.Path Float)
    (hkind : Xml.Legal kind) (hstyle : ∀ a ∈ style, Xml.Legal a.2) :
    (pathElement kind path style).IsLegal := by
  have hempty : Xml.Legal "" := by decide
  refine isLegal_leaf.mpr ⟨?_, hempty⟩
  exact List.forall_mem_cons.mpr ⟨hkind, List.forall_mem_cons.mpr ⟨legal_pathText path, hstyle⟩⟩

theorem legal_labelAttributes (v : NodeShape Float) : ∀ a ∈ labelAttributes v, Xml.Legal a.2 := by
  have hclass : Xml.Legal "label" := by decide
  have hanchor : ∀ a ∈ [("text-anchor", "middle")], Xml.Legal a.2 :=
    List.forall_mem_singleton.mpr (by decide)
  exact List.forall_mem_cons.mpr ⟨hclass, List.forall_mem_cons.mpr ⟨legal_number v.center.x,
    List.forall_mem_cons.mpr ⟨legal_number v.center.y, hanchor⟩⟩⟩

theorem legal_label (v : NodeShape Float) :
    (labelElement v).Everywhere IsLegal ↔ ∀ line ∈ v.lines, Xml.Legal line := by
  have hattributes := legal_labelAttributes v
  rcases labelElement_cases v with ⟨line, hline, hlabel⟩ | ⟨-, hlabel⟩
  · rw [hlabel, everywhere_leaf, isLegal_leaf, hline, List.forall_mem_singleton]
    exact and_iff_right hattributes
  · rw [hlabel, everywhere_branch, isLegal_branch, and_iff_right hattributes]
    refine (forall_iff_of_forall₂ (lineElements_forall₂ _ _ _ _) ?_).symm
    rintro line e ⟨dy, rfl⟩
    have hunit : Xml.Legal "em" := by decide
    rw [everywhere_leaf, isLegal_leaf]
    refine (and_iff_right ?_).symm
    exact List.forall_mem_cons.mpr ⟨legal_number v.center.x,
      List.forall_mem_singleton.mpr (legal_append.mpr ⟨legal_number dy, hunit⟩)⟩

theorem legal_strokeStyle {width : String} (h : Xml.Legal width) :
    ∀ a ∈ strokeStyle width, Xml.Legal a.2 := by
  have hcolor : Xml.Legal strokeColor := by decide
  have hnone : Xml.Legal "none" := by decide
  exact List.forall_mem_cons.mpr ⟨hcolor, List.forall_mem_cons.mpr ⟨h,
    List.forall_mem_singleton.mpr hnone⟩⟩

theorem legal_node (v : NodeShape Float) : (nodeElement v).Everywhere IsLegal ↔
    Xml.Legal v.id ∧ ∀ line ∈ v.lines, Xml.Legal line := by
  have hclass : Xml.Legal "node" := by decide
  have hpath : (pathElement "node-shape" v.outline (strokeStyle "1")).IsLegal :=
    legal_path v.outline (by decide) (legal_strokeStyle (by decide))
  rw [everywhere_node, legal_label, and_iff_right hpath, nodeElement, isLegal_branch,
    List.forall_mem_cons, List.forall_mem_singleton, and_iff_right hclass]

theorem legal_edge (e : EdgeShape Float) : (edgeElement e).Everywhere IsLegal ↔
    Xml.Legal e.source ∧ Xml.Legal e.target := by
  have hclass : Xml.Legal "edge" := by decide
  have hmarker : Xml.Legal ("url(#" ++ arrowId ++ ")") := by decide
  have hpath : (pathElement "edge-path" e.path
      (strokeStyle "1" ++ [("marker-end", "url(#" ++ arrowId ++ ")")])).IsLegal :=
    legal_path e.path (by decide) (List.forall_mem_append.mpr
      ⟨legal_strokeStyle (by decide), List.forall_mem_singleton.mpr hmarker⟩)
  rw [everywhere_edge, and_iff_left hpath, edgeElement, isLegal_branch, List.forall_mem_cons,
    List.forall_mem_cons, List.forall_mem_singleton, and_iff_right hclass]

theorem legal_marker (d : Drawing Float) : (marker d).Everywhere IsLegal := by
  refine everywhere_marker.mpr ⟨isLegal_branch.mpr ?_, ?_, ?_⟩
  · decide
  · exact legal_path d.arrowFill (by decide) (by decide)
  · exact legal_path d.arrowOutline (by decide) (legal_strokeStyle (by decide))

/-- **The values and texts of a document** are of characters that a document may have if and only if
those of the graph are: its ids, labels and ends, and the font family. -/
theorem legal_document (d : Drawing Float) : (document d).Everywhere IsLegal ↔
    Xml.Legal d.fontFamily ∧
      (∀ v ∈ d.nodes, Xml.Legal v.id ∧ ∀ line ∈ v.lines, Xml.Legal line) ∧
      ∀ e ∈ d.edges, Xml.Legal e.source ∧ Xml.Legal e.target := by
  have hnamespace : Xml.Legal svgNamespace := by decide
  have hview : Xml.Legal ("0 0 " ++ number d.width ++ " " ++ number d.height) := by
    have hstart : Xml.Legal "0 0 " := by decide
    have hspace : Xml.Legal " " := by decide
    exact legal_append.mpr ⟨legal_append.mpr
      ⟨legal_append.mpr ⟨hstart, legal_number _⟩, hspace⟩, legal_number _⟩
  have hgeneric : Xml.Legal ", sans-serif" := by decide
  have hroot : (document d).IsLegal ↔ Xml.Legal d.fontFamily := by
    rw [document, isLegal_branch, List.forall_mem_cons, List.forall_mem_cons, List.forall_mem_cons,
      List.forall_mem_cons, List.forall_mem_cons, List.forall_mem_singleton,
      and_iff_right hnamespace, and_iff_right (legal_number _), and_iff_right (legal_number _),
      and_iff_right hview, and_iff_left (legal_number _), legal_append, and_iff_left hgeneric]
  have hdefs : (Element.branch "defs" [] [marker d]).IsLegal :=
    isLegal_branch.mpr fun a ha => absurd ha List.not_mem_nil
  simp only [everywhere_document, hroot, hdefs, legal_marker, legal_node, legal_edge, true_and]

/-- So it is of the graph that was drawn. -/
theorem legal_drawn {g : Graph Float} {d : Drawing Float} (h : Draws g d) :
    (document d).Everywhere IsLegal ↔ Xml.Legal d.fontFamily ∧
      (∀ v ∈ g.nodes, Xml.Legal v.id ∧ Xml.Legal v.label) ∧
      ∀ e ∈ g.edges, Xml.Legal e.source ∧ Xml.Legal e.target := by
  rw [legal_document]
  refine and_congr_right' (and_congr ?_ ?_)
  · refine (forall_iff_of_forall₂ h.nodes ?_).symm
    rintro v shape ⟨hid, hlines⟩
    rw [hid, hlines, legal_lines]
  · refine (forall_iff_of_forall₂ h.edges ?_).symm
    rintro e shape ⟨hsource, htarget⟩
    rw [hsource, htarget]

/-! ### Carriage returns -/

/-- Texts stand in labels only. -/
theorem noReturn_document {d : Drawing Float}
    (h : ∀ v ∈ d.nodes, ∀ line ∈ v.lines, '\r' ∉ line.toList) :
    (document d).Everywhere NoReturn := by
  have hbranch : ∀ tag attributes es, (Element.branch tag attributes es).NoReturn := by
    intro _ _ _ text htext
    cases htext
  have hpath : ∀ kind path style, (pathElement kind path style).NoReturn := by
    intro _ _ _ text htext
    obtain rfl : "" = text := Option.some.inj htext
    exact List.not_mem_nil
  refine everywhere_document.mpr ⟨hbranch _ _ _, hbranch _ _ _,
    everywhere_marker.mpr ⟨hbranch _ _ _, hpath _ _ _, hpath _ _ _⟩, fun v hv => ?_, fun e _ =>
      everywhere_edge.mpr ⟨hbranch _ _ _, hpath _ _ _⟩⟩
  refine everywhere_node.mpr ⟨hbranch _ _ _, hpath _ _ _, ?_⟩
  rcases labelElement_cases v with ⟨line, hline, hlabel⟩ | ⟨-, hlabel⟩
  · rw [hlabel, everywhere_leaf]
    intro text htext
    obtain rfl : line = text := Option.some.inj htext
    exact h v hv line (hline ▸ List.mem_cons_self)
  · rw [hlabel, everywhere_branch]
    refine ⟨hbranch _ _ _, (forall_iff_of_forall₂ (lineElements_forall₂ _ _ _ _) ?_).mp (h v hv)⟩
    rintro line e ⟨dy, rfl⟩
    rw [everywhere_leaf]
    constructor
    · intro hline text htext
      obtain rfl : line = text := Option.some.inj htext
      exact hline
    · intro hleaf
      exact hleaf line rfl

end Documents

end Scene

end Scrawl
