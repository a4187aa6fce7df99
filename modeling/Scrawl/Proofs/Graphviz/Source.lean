import Scrawl.Proofs.Decimal.Fixed
import Scrawl.Proofs.Decimal.Quotients
import Scrawl.Proofs.Description.Content
import Scrawl.Proofs.Description.Direction
import Scrawl.Proofs.Graphviz.Printing

/-!
# Scrawl.Proofs.Graphviz.Source — the input for dot, read as a description

The text that dot is given is a description in the language of `Scrawl.Description`.  It says the
ids, the edges and the direction of the graph it was made from.

* `Graph.Built`: graphs that are built have distinct ids, and nodes at the ends of their edges.
* `isGap_inches`: the gaps of the text are gaps, if those of the graph are finite.
* `toList_source`: the text is that of its lines.
* `actFrom_sourceLines`: what the statements of the lines make.
* `read_source`: what is read from the text has the ids, edges and direction of the graph.
-/

namespace Scrawl

/-! ### Graphs that are built -/

namespace Graph

variable {g : Graph Float}

/-- The graphs that are built by adding nodes and edges; anything besides ids and edges may be
set. -/
inductive Built : Graph Float → Prop
  | empty : Built Graph.empty
  | node {g : Graph Float} (h : Built g) (id : String) (label : Option String) :
      Built (g.addNode id label)
  | edge {g : Graph Float} (h : Built g) (source target : String) : Built (g.addEdge source target)
  | set {g g' : Graph Float} (h : Built g) (hids : g'.ids = g.ids) (hends : g'.ends = g.ends) :
      Built g'

/-- No two nodes that are built share an id. -/
theorem Built.nodup (h : g.Built) : g.ids.Nodup := by
  induction h with
  | empty => exact List.nodup_nil
  | @node g _ id label ih => exact g.ids_addNode id label ▸ nodup_mention ih
  | @edge g _ s t ih => exact g.ids_addEdge s t ▸ nodup_mention (nodup_mention ih)
  | set _ hids _ ih => exact hids ▸ ih

theorem joined_iff : g.Joined ↔ ∀ p ∈ g.ends, p.1 ∈ g.ids ∧ p.2 ∈ g.ids := by
  simp [Joined, ends]

/-- The ends of an edge that is built are nodes. -/
theorem Built.joined (h : g.Built) : g.Joined := by
  rw [joined_iff]
  induction h with
  | empty => exact fun _ hp => absurd hp List.not_mem_nil
  | @node g _ id label ih =>
    rw [ids_addNode, ends_addNode]
    exact fun p hp => ⟨mem_mention.mpr (Or.inl (ih p hp).1), mem_mention.mpr (Or.inl (ih p hp).2)⟩
  | @edge g _ s t ih =>
    rw [ids_addEdge, ends_addEdge]
    simp only [mem_mention]
    intro p hp
    rcases List.mem_append.mp hp with hp | hp
    · obtain ⟨hs, ht⟩ := ih p hp
      exact ⟨Or.inl (Or.inl hs), Or.inl (Or.inl ht)⟩
    · obtain rfl := List.mem_singleton.mp hp
      exact ⟨Or.inl (Or.inr rfl), Or.inr rfl⟩
  | set _ hids hends ih => rwa [hids, hends]

end Graph

namespace Graphviz

open Description

/-! ### Lengths in inches -/

theorem inches_eq (least pixels : Float) : inches least pixels =
    Decimal.fixed 4 (Scalar.max least (pixels / pixelsPerInch)) := rfl

/-- A finite gap is written as a gap. -/
theorem isGap_inches {x : Float} (h : x.isFinite) : IsGap (inches 0.02 x) := by
  have hleast : Decimal.Binary.ofFloat 0.02 = .finite false 5764607523034235 (-58) := by
    decide +kernel
  obtain ⟨m, e, hvalue, hm, he⟩ : ∃ m e,
      Decimal.Binary.ofFloat (Scalar.max 0.02 (x / pixelsPerInch)) = .finite false m e ∧
        m < 2 ^ 53 ∧ e ≤ 967 := by
    rw [Scalar.max]
    split_ifs with hlt
    · obtain ⟨negative, m, e, hvalue, hm, he⟩ := Decimal.Binary.ofFloat_div h
      obtain rfl := Decimal.Binary.nonneg_of_lt hleast (by decide) hvalue hlt
      exact ⟨m, e, hvalue, hm, he⟩
    · exact ⟨_, _, hleast, by decide, by decide⟩
  rw [inches_eq, Decimal.fixed, hvalue]
  exact Decimal.isGap_fixedChars (by decide) hm he

/-- Whether a text is its own escape. -/
def isClean (s : String) : Bool := s.toList.all fun c => c != '"' && c != '\\'

theorem isClean_iff {s : String} : isClean s ↔ ∀ c ∈ s.toList, c ≠ '"' ∧ c ≠ '\\' := by
  simp [isClean]

theorem toList_quoteId_of_clean {s : String} (h : isClean s) :
    (quoteId s).toList = '"' :: (s.toList ++ ['"']) := by
  have hescaped : Text.escaped s.toList = s.toList := by
    rw [Text.escaped, List.flatMap_congr fun c hc => by
      rw [if_neg]
      simpa using isClean_iff.mp h c hc]
    exact List.flatMap_singleton' _
  rw [Text.toList_quoteId, hescaped]

theorem isClean_inches (least pixels : Float) : isClean (inches least pixels) := by
  have hfigure : ∀ c, Decimal.IsFigureChar c → c ≠ '"' ∧ c ≠ '\\' := by
    rintro c (hc | hc)
    · constructor <;> rintro rfl <;> cases hc
    · fin_cases hc <;> decide
  rw [inches_eq, Decimal.fixed]
  cases Decimal.Binary.ofFloat (Scalar.max least (pixels / pixelsPerInch)) with
  | nan => rfl
  | infinite negative => cases negative <;> rfl
  | finite negative m e =>
    refine isClean_iff.mpr fun c hc => hfigure c ?_
    rw [String.toList_ofList] at hc
    exact Decimal.isFigureChar_of_mem_fixedChars (by decide) hc

theorem isClean_direction {d : Direction} (h : d ∈ Direction.all) : isClean d.name := by
  fin_cases h <;> rfl

/-! ### The lines of the text -/

/-- The settings of a graph. -/
def graphSettings (g : Graph Float) : Attributes :=
  [("rankdir", g.direction.name), ("splines", "polyline"), ("nodesep", inches 0.02 g.nodeGap),
    ("ranksep", inches 0.02 g.rankGap), ("pad", "0")]

/-- The settings of a node. -/
def nodeSettings (v : Node Float) : Attributes :=
  [("width", inches 0.01 (v.width.getD 0.0)), ("height", inches 0.01 (v.height.getD 0.0))]

/-- The line of a node or an edge. -/
def itemLines (g : Graph Float) : List Line :=
  g.nodes.map (fun v => .node v.id (nodeSettings v)) ++
    g.edges.map fun e => .edge e.source e.target

/-- The lines of the text that dot is given, between its braces. -/
def sourceLines (g : Graph Float) : List Line :=
  .settings .graph (graphSettings g) ::
    .settings .nodes [("shape", "box"), ("fixedsize", "true"), ("margin", "0"), ("label", "")] ::
    .settings .edges [("arrowhead", "none")] :: itemLines g

/-- A line as it stands in the text. -/
def Line.text (l : Line) : List Char := ' ' :: ' ' :: (l.chars ++ [';'])

theorem intercalate_cons {β : Type} (sep a : List β) (l : List (List β)) :
    sep.intercalate (a :: l) = a ++ l.flatMap (sep ++ ·) := by
  induction l generalizing a with
  | nil => simp [List.intercalate]
  | cons b l ih => rw [List.intercalate_cons_cons, ih, List.flatMap_cons, List.append_assoc,
      List.append_assoc]

theorem toList_nodeLine (v : Node Float) :
    (nodeLine v).toList = (Line.node v.id (nodeSettings v)).text := by
  have hwidth := toList_quoteId_of_clean (isClean_inches 0.01 (v.width.getD 0.0))
  have hheight := toList_quoteId_of_clean (isClean_inches 0.01 (v.height.getD 0.0))
  simp only [nodeLine, String.toList_append, Line.text, Line.chars, nodeSettings, listChars,
    attributeChars, List.flatMap_cons, List.flatMap_nil, hwidth, hheight, List.append_assoc,
    List.cons_append, List.nil_append]
  rfl

theorem toList_edgeLine (e : Edge Float) :
    (edgeLine e).toList = (Line.edge e.source e.target).text := by
  simp only [edgeLine, String.toList_append, Line.text, Line.chars, List.append_assoc,
    List.cons_append]
  rfl

theorem toList_headLines {g : Graph Float} (h : g.direction ∈ Direction.all) :
    ((headLines g).drop 1).map String.toList = ((sourceLines g).take 3).map Line.text := by
  have hdirection := toList_quoteId_of_clean (isClean_direction h)
  have hnodeGap := toList_quoteId_of_clean (isClean_inches 0.02 g.nodeGap)
  have hrankGap := toList_quoteId_of_clean (isClean_inches 0.02 g.rankGap)
  have hsettings : ("  graph [rankdir=\"" ++ g.direction.name ++
      "\", splines=\"polyline\", nodesep=\"" ++ inches 0.02 g.nodeGap ++ "\", ranksep=\"" ++
      inches 0.02 g.rankGap ++ "\", pad=\"0\"];").toList =
        (Line.settings .graph (graphSettings g)).text := by
    simp only [String.toList_append, Line.text, Line.chars, graphSettings, listChars,
      attributeChars, List.flatMap_cons, List.flatMap_nil, hdirection, hnodeGap, hrankGap,
      List.append_assoc, List.cons_append, List.nil_append]
    rfl
  exact congrArg (· :: _) hsettings

theorem toList_itemLines (g : Graph Float) :
    (g.nodes.map nodeLine ++ g.edges.map edgeLine).map String.toList =
      (itemLines g).map Line.text := by
  have hnodes : (g.nodes.map nodeLine).map String.toList =
      (g.nodes.map fun v => Line.node v.id (nodeSettings v)).map Line.text := by
    rw [List.map_map, List.map_map]
    exact List.map_congr_left fun v _ => toList_nodeLine v
  have hedges : (g.edges.map edgeLine).map String.toList =
      (g.edges.map fun e => Line.edge e.source e.target).map Line.text := by
    rw [List.map_map, List.map_map]
    exact List.map_congr_left fun e _ => toList_edgeLine e
  rw [itemLines, List.map_append, List.map_append, hnodes, hedges]

/-- **The text that dot is given is that of its lines.** -/
theorem toList_source {g : Graph Float} (h : g.direction ∈ Direction.all) :
    (source g).toList = describe "G" (sourceLines g) := by
  have hhead : headLines g = "digraph G \x7b" :: (headLines g).drop 1 := rfl
  have hsplit : sourceLines g = (sourceLines g).take 3 ++ itemLines g := rfl
  have hlines : ((headLines g).drop 1).map String.toList ++
      (g.nodes.map nodeLine ++ g.edges.map edgeLine).map String.toList =
        (sourceLines g).map Line.text := by
    rw [toList_headLines h, toList_itemLines, ← List.map_append, ← hsplit]
  have htext : ∀ l : Line, "\n".toList ++ l.text = "\n  ".toList ++ (l.chars ++ [';']) :=
    fun _ => rfl
  have hend : "\n".toList ++ "\x7d".toList = "\n\x7d".toList := rfl
  have hstart : "digraph G \x7b".toList = "digraph ".toList ++ ("G".toList ++ [' ', '\x7b']) := rfl
  rw [source, String.toList_intercalate, hhead, List.append_assoc _ (g.nodes.map nodeLine),
    List.map_append, List.map_append, List.map_cons, List.cons_append, hlines, List.cons_append,
    intercalate_cons, List.flatMap_append, List.flatMap_map]
  unfold describe
  simp only [htext, List.map_cons, List.map_nil, List.flatMap_cons, List.flatMap_nil,
    List.append_nil, hend, hstart, List.append_assoc, List.cons_append, List.nil_append]

/-! ### What the lines say -/

/-- The ids that a line names. -/
def Line.mentioned : Line → List String
  | settings _ _ => []
  | node id _ => [id]
  | edge s t => [s, t]

/-- The edge that a line makes. -/
def Line.joins : Line → List (String × String)
  | edge s t => [(s, t)]
  | _ => []

/-- Whether a line sets attributes of the graph. -/
def Line.SetsGraph : Line → Prop
  | settings .graph _ => True
  | _ => False

theorem Line.Says.content {l : Line} {s : Statement} (h : l.Says s) :
    s.mentioned = l.mentioned ∧ s.joins = l.joins ∧ (s.SetsGraph ↔ l.SetsGraph) := by
  cases h <;> exact ⟨rfl, rfl, Iff.rfl⟩

theorem content_of_lines {lines : List Line} {statements : List Statement}
    (h : List.Forall₂ Line.Says lines statements) :
    statements.flatMap Statement.mentioned = lines.flatMap Line.mentioned ∧
      statements.flatMap Statement.joins = lines.flatMap Line.joins ∧
      ((∀ s ∈ statements, ¬ s.SetsGraph) ↔ ∀ l ∈ lines, ¬ l.SetsGraph) := by
  induction h with
  | nil => exact ⟨rfl, rfl, by simp⟩
  | cons h _ ih =>
    obtain ⟨hm, hj, hsets⟩ := h.content
    simp [hm, hj, hsets, ih]

theorem mentioned_sourceLines (g : Graph Float) : (sourceLines g).flatMap Line.mentioned =
    g.ids ++ g.edges.flatMap fun e => [e.source, e.target] := by
  simp only [sourceLines, itemLines, List.flatMap_cons, List.flatMap_append, List.flatMap_map,
    Line.mentioned, List.nil_append, ← List.map_eq_flatMap]
  rfl

theorem joins_sourceLines (g : Graph Float) : (sourceLines g).flatMap Line.joins = g.ends := by
  simp only [sourceLines, itemLines, List.flatMap_cons, List.flatMap_append, List.flatMap_map,
    Line.joins, List.nil_append, ← List.map_eq_flatMap]
  simp [Graph.ends]

/-! ### What the statements make -/

theorem admissible_direction {d : Direction} (h : d ∈ Direction.all) :
    Admissible "rankdir" d.name := by
  have hkey : Text.lower "rankdir" = "rankdir" := Text.lower_of_isLower (by decide)
  refine ⟨fun _ => ?_, fun hgap => absurd hgap (by rw [hkey]; decide)⟩
  fin_cases h <;> decide +kernel

theorem lower_ne_rankdir {key : String} (hkey : key.toList.all Char.isLower)
    (hne : key ≠ "rankdir") : Text.lower key ≠ "rankdir" := by
  rwa [Text.lower_of_isLower hkey]

theorem admissible_of_isGap {value : String} (h : IsGap value) {key : String}
    (hkey : key.toList.all Char.isLower) (hne : key ≠ "rankdir") : Admissible key value :=
  ⟨fun hdir => absurd hdir (lower_ne_rankdir hkey hne), fun _ => h⟩

theorem admissible_other {key : String} (value : String) (hkey : key.toList.all Char.isLower)
    (h : key ∉ ["rankdir", "nodesep", "ranksep"]) : Admissible key value := by
  rw [← Text.lower_of_isLower hkey] at h
  simp only [List.mem_cons, List.not_mem_nil, or_false, not_or] at h
  exact ⟨fun hdir => absurd hdir h.1, fun hgap => absurd hgap (not_or.mpr h.2)⟩

theorem nodup_graphSettings (g : Graph Float) : ((graphSettings g).map (·.1)).Nodup := by
  change ["rankdir", "splines", "nodesep", "ranksep", "pad"].Nodup
  decide

/-- The settings of the graph are admissible. -/
theorem admissible_graphSettings {g : Graph Float} (hd : g.direction ∈ Direction.all)
    (hn : g.nodeGap.isFinite) (hr : g.rankGap.isFinite) (place : Token) :
    (Statement.graphAttributes (graphSettings g) place).Admissible := by
  have hall : ∀ a ∈ graphSettings g, Admissible a.1 a.2 := by
    simp only [graphSettings, List.forall_mem_cons]
    exact ⟨admissible_direction hd, admissible_other _ (by decide) (by decide),
      admissible_of_isGap (isGap_inches hn) (by decide) (by decide),
      admissible_of_isGap (isGap_inches hr) (by decide) (by decide),
      admissible_other _ (by decide) (by decide), fun _ h => absurd h List.not_mem_nil⟩
  intro key value hvalue
  rw [← mem_lastValues, lastValues_of_nodup (nodup_graphSettings g)] at hvalue
  exact hall _ hvalue

/-- **What the statements of the lines make**: they act, and the graph has the ids, the edges and
the direction of the one that the lines are from. -/
theorem actFrom_sourceLines {g : Graph Float} {statements : List Statement} (hids : g.ids.Nodup)
    (hj : g.Joined) (hd : g.direction ∈ Direction.all) (hn : g.nodeGap.isFinite)
    (hr : g.rankGap.isFinite) (h : List.Forall₂ Line.Says (sourceLines g) statements)
    (finish : Position) : ∃ d, actFrom finish {} statements = .ok d ∧
      d.graph.ids = g.ids ∧ d.graph.ends = g.ends ∧ d.graph.direction = g.direction := by
  obtain ⟨hmentioned, hjoins, -⟩ := content_of_lines h
  rw [mentioned_sourceLines] at hmentioned
  rw [joins_sourceLines] at hjoins
  obtain ⟨s, rest, hfirst, hrest, rfl⟩ := List.forall₂_cons_left_iff.mp h
  obtain ⟨place, rfl⟩ : ∃ place, s = .graphAttributes (graphSettings g) place := by
    cases hfirst with
    | graph as place => exact ⟨place, rfl⟩
  have hkeep : ∀ s ∈ rest, ¬ s.SetsGraph := by
    refine (content_of_lines hrest).2.2.mpr ?_
    simp only [itemLines, List.forall_mem_cons, List.forall_mem_append, List.forall_mem_map]
    exact ⟨id, id, fun _ _ => id, fun _ _ => id⟩
  have hadmissible := List.forall_mem_cons.mpr ⟨admissible_graphSettings hd hn hr place,
    fun s hs => Statement.admissible_of_not_setsGraph (hkeep s hs)⟩
  obtain ⟨d, hact⟩ := (actFrom_ok_iff (d := {}) finish).mpr hadmissible
  obtain ⟨hids', hends'⟩ := actFrom_graph finish hact
  refine ⟨d, hact, ?_, ?_, ?_⟩
  · have hold : ∀ v ∈ g.edges.flatMap (fun e => [e.source, e.target]), v ∈ g.ids := by
      intro v hv
      obtain ⟨e, he, hv⟩ := List.mem_flatMap.mp hv
      obtain ⟨hsource, htarget⟩ := hj e he
      rcases List.mem_pair.mp hv with rfl | rfl
      · exact hsource
      · exact htarget
    have hnew : g.ids.foldl mention [] = g.ids := foldl_mention_of_nodup (by simpa using hids)
    have hfold : d.graph.ids = (_ : List String).foldl mention [] := hids'
    rw [hfold, hmentioned, List.foldl_append, hnew]
    exact foldl_mention_of_mem hold
  · rw [hends', hjoins]
    rfl
  · rw [actFrom_cons] at hact
    split at hact
    · next d₁ h₁ =>
      rw [direction_of_actFrom hkeep hact]
      refine direction_of_settings hd ?_ (nodup_graphSettings g) h₁
      simp only [List.forall_mem_cons]
      exact ⟨lower_ne_rankdir (by decide) (by decide), lower_ne_rankdir (by decide) (by decide),
        lower_ne_rankdir (by decide) (by decide), lower_ne_rankdir (by decide) (by decide),
        fun _ h => absurd h List.not_mem_nil⟩
    · cases hact

theorem isName_sourceLines (g : Graph Float) :
    ∀ l ∈ sourceLines g, ∀ a ∈ l.attributes, isName a.1 := by
  have hkeys : ∀ key ∈ ["rankdir", "splines", "nodesep", "ranksep", "pad", "shape", "fixedsize",
      "margin", "label", "arrowhead", "width", "height"], isName key := by decide +kernel
  simp only [List.forall_mem_cons] at hkeys
  simp only [sourceLines, itemLines, Line.attributes, graphSettings, nodeSettings,
    List.forall_mem_cons, List.forall_mem_append, List.forall_mem_map, hkeys, true_and]
  simp

/-- The text that dot is given has the lexemes of its lines. -/
theorem lexes_source {g : Graph Float} (h : g.direction ∈ Direction.all) :
    Lexes (source g).toList (describeLexemes "G" (sourceLines g)) [] := by
  have hprints := prints_describe (by decide +kernel : isName "G") (isName_sourceLines g) []
  rwa [List.append_nil, ← toList_source h] at hprints

/-- **The input for dot says what the graph says.**  For every graph whose ids are distinct and
whose edges end at nodes, as in all that is built by adding nodes and edges, with one of the four
directions and finite gaps, and not too large to be described, the text is read without a fault.
What is read has the same ids in the same order, the same edges in the same order and the same
direction, whatever characters the ids are made of. -/
theorem read_source {g : Graph Float} (hids : g.ids.Nodup) (hj : g.Joined)
    (hd : g.direction ∈ [.topBottom, .bottomTop, .leftRight, .rightLeft])
    (hn : g.nodeGap.isFinite) (hr : g.rankGap.isFinite) (hnodes : g.nodes.length ≤ 2000)
    (hedges : g.edges.length ≤ 8000) : ∃ g', read (source g) = .ok g' ∧
      g'.ids = g.ids ∧ g'.ends = g.ends ∧ g'.direction = g.direction := by
  obtain ⟨s, hscan, htokens⟩ := (lexes_source hd).scan
  obtain ⟨statements, hsentence, hsays⟩ := sentence_of_lexemes htokens
  obtain ⟨d, hact, hids', hends', hdirection⟩ :=
    actFrom_sourceLines hids hj hd hn hr hsays s.finish
  have hnodes' : d.graph.nodes.length ≤ 2000 := by
    have hlength := congrArg List.length hids'
    simp only [Graph.ids, List.length_map] at hlength
    exact hlength.trans_le hnodes
  have hedges' : d.graph.edges.length ≤ 8000 := by
    have hlength := congrArg List.length hends'
    simp only [Graph.ends, List.length_map] at hlength
    exact hlength.trans_le hedges
  refine ⟨{ d.graph with name := some "G" }, ?_, hids', hends', hdirection⟩
  rw [Description.read, hscan]
  exact ofTokens_complete hsentence hact hnodes' hedges'

/-- A graph with a quote, a backslash, a line feed and a keyword among its ids, a loop and a node
without edges. -/
def tangle : Graph Float :=
  (((Graph.empty.addEdge "\"\\" "a\nb").addEdge "a\nb" "node").addEdge "\"\\" "\"\\").addNode "é;"

/-- The graph with boxes of one size, from right to left. -/
def tangled : Graph Float :=
  { tangle with
    nodes := tangle.nodes.map fun v => { v with width := some 40.0, height := some 20.0 }
    direction := .rightLeft }

theorem built_tangled : tangled.Built := by
  have hbuilt : tangle.Built := .node (.edge (.edge (.edge .empty _ _) _ _) _ _) _ _
  exact hbuilt.set (by simp [tangled, Graph.ids]) rfl

theorem read_source_tangled : ∃ g, read (source tangled) = .ok g ∧
    g.ids = ["\"\\", "a\nb", "node", "é;"] ∧
    g.ends = [("\"\\", "a\nb"), ("a\nb", "node"), ("\"\\", "\"\\")] ∧
    g.direction = .rightLeft := by
  obtain ⟨g, hread, hids, hends, hdirection⟩ := read_source built_tangled.nodup
    built_tangled.joined (by decide) (by decide +kernel) (by decide +kernel) (by decide)
    (by decide)
  exact ⟨g, hread, hids.trans (by decide +kernel), hends.trans (by decide +kernel), hdirection⟩

end Graphviz

end Scrawl
