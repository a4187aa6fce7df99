import Scrawl.Proofs.Decimal.Figures
import Scrawl.Proofs.Graphviz.Assignment
import Scrawl.Proofs.Layered.Packing
import Scrawl.Proofs.Text.Words

/-!
# Scrawl.Proofs.Graphviz.Drawing — the plain output of a drawing is read back

A drawing of a graph gives a point to every node and a route to every edge, in inches.  Its plain
output has a line for each of them, in any order that keeps parallel edges in theirs.

* `take_words`: what is read from a line.
* `takeLines_items`: what is read from the lines of a drawing.
* `placement_drawing`: every node gets its own centre, and every edge its own route.
-/

namespace Scrawl.Graphviz

open Text Decimal

/-! ### Drawings and their output -/

/-- The end of a line, which is not read but has to be split into words. -/
structure Trailer where
  chars : List Char
  words : List String
  apart : EndsWord chars
  oneLine : OneLine chars
  ends : chars = [] ∨ EndsInk chars
  splits : Text.words (String.ofList chars) = .ok words

/-- What a line is about, by its number. -/
inductive Item (g : Graph ℚ)
  | node (v : Fin g.nodes.length)
  | edge (k : Fin g.edges.length)
  deriving DecidableEq

namespace Item

variable {g : Graph ℚ}

/-- The number of the node. -/
def node? : Item g → Option (Fin g.nodes.length)
  | node v => some v
  | edge _ => none

/-- The number of the edge. -/
def edge? : Item g → Option (Fin g.edges.length)
  | node _ => none
  | edge k => some k

end Item

/-- The graph names the id, of a node or as the end of an edge. -/
def Named (g : Graph ℚ) (id : String) : Prop :=
  id ∈ g.ids ∨ ∃ e ∈ g.edges, id = e.source ∨ id = e.target

/-- A point in inches, as it is written. -/
abbrev Inches := Figure × Figure

/-- A drawing of a graph, as dot writes it. -/
structure Drawing (g : Graph ℚ) where
  scale : Figure
  width : Figure
  height : Figure
  center : Fin g.nodes.length → Inches
  route : Fin g.edges.length → List Inches
  /-- The lines in order. -/
  items : List (Item g)
  trailer : Item g → Trailer
  /-- What stands behind the last line that is read. -/
  rest : List Char
  two_le : ∀ k, 2 ≤ (route k).length
  /-- The count of points can be read as a whole numeral. -/
  countable : ∀ k, (natDigits (route k).length).length ≤ maxWholeDigits
  all : items.Perm ((List.finRange _).map .node ++ (List.finRange _).map .edge)
  parallel : (items.filterMap Item.edge?).Pairwise fun j k =>
    endsOf (g.edges.get j) = endsOf (g.edges.get k) → j < k
  rest_apart : ∀ c ∈ rest.head?, c = '\n'

namespace Drawing

variable {g : Graph ℚ} (d : Drawing g)

/-- The fields of the points of a route. -/
def pointFields (route : List Inches) : List (List Char) :=
  route.flatMap fun p => [p.1.chars, p.2.chars]

/-- The first field of a line, and the others. -/
def fields : Item g → List Char × List (List Char)
  | .node v => ("node".toList,
      [(quoteId (g.nodes.get v).id).toList, (d.center v).1.chars, (d.center v).2.chars])
  | .edge k => ("edge".toList,
      (quoteId (g.edges.get k).source).toList :: (quoteId (g.edges.get k).target).toList ::
        natDigits (d.route k).length :: pointFields (d.route k))

/-- The line about an item. -/
def line (i : Item g) : List Char :=
  (d.fields i).1 ++ (spaced (d.fields i).2 ++ (d.trailer i).chars)

/-- The first line. -/
def header : List Char :=
  "graph".toList ++ spaced [d.scale.chars, d.width.chars, d.height.chars]

/-- The output. -/
def text : String :=
  String.ofList
    ((d.header :: d.items.map d.line).flatMap (· ++ ['\n']) ++ ("stop".toList ++ d.rest))

/-- A point in pixels, with `y` downwards. -/
def pixels (p : Inches) : Point ℚ := ⟨96 * p.1.value, 96 * (d.height.value - p.2.value)⟩

end Drawing

/-! ### Fields -/

/-- A field of a line, and the word it spells. -/
structure IsField (field word : List Char) : Prop where
  spells : Spells field word
  oneLine : OneLine field
  ends : EndsInk field

/-- Whether a character may stand in a word without quotes. -/
def isBareChar (c : Char) : Bool := isPlainChar c && !isBlank c

theorem isField_bare {cs : List Char} (h : ∀ c ∈ cs, isBareChar c) (hne : cs ≠ []) :
    IsField cs cs := by
  have hboth : ∀ c ∈ cs, isPlainChar c ∧ isBlank c = false := fun c hc => by
    simpa [isBareChar] using h c hc
  exact ⟨spells_plain (fun c hc => (hboth c hc).1) hne,
    fun c hc => not_boundary_of_ink (hboth c hc).2,
    endsInk_of_forall (fun c hc => (hboth c hc).2) hne⟩

theorem isBareChar_figure {c : Char} (h : IsFigureChar c) : isBareChar c := by
  have hplain : isPlainChar c := by
    rcases h with h | h
    · have := isDigit_range h
      have hne : ∀ d : Char, d.toNat < 48 ∨ 57 < d.toNat → c ≠ d := fun d hd hcd => by
        subst hcd
        omega
      simp [isPlainChar, isWordGap, isQuoteMark, hne]
    · fin_cases h <;> decide
  rw [isBareChar, hplain, h.not_blank]
  rfl

theorem isField_figure (f : Figure) : IsField f.chars f.chars :=
  isField_bare (fun _ hc => isBareChar_figure (f.isFigureChar_of_mem hc)) f.chars_ne_nil

theorem isField_natDigits (n : ℕ) : IsField (natDigits n) (natDigits n) :=
  isField_bare (fun _ hc => isBareChar_figure (Or.inl (isDigit_of_mem_natDigits hc)))
    Nat.toDigits_ne_nil

theorem isField_quoteId {id : String} (h : OneLine id.toList) :
    IsField (quoteId id).toList id.toList := by
  refine ⟨spells_quoteId id, fun c hc => ?_, ?_⟩
  · have hmarks : isLineBoundary '"' = false ∧ isLineBoundary '\\' = false := by decide
    rw [toList_quoteId, List.mem_cons, List.mem_append, List.mem_singleton] at hc
    rcases hc with rfl | hc | rfl
    · exact hmarks.1
    · obtain ⟨d, hd, hc⟩ := List.mem_flatMap.mp hc
      split at hc
      · rcases List.mem_pair.mp hc with rfl | rfl
        · exact hmarks.2
        · exact h c hd
      · obtain rfl := List.mem_singleton.mp hc
        exact h c hd
    · exact hmarks.1
  · rw [toList_quoteId]
    exact ⟨'"' :: escaped id.toList, '"', rfl, by decide⟩

/-- The words that lines begin with. -/
theorem isField_keyword (cs : List Char)
    (h : cs ∈ ["graph".toList, "node".toList, "edge".toList, "stop".toList]) :
    IsField cs cs ∧ BeginsInk cs := by
  simp only [List.mem_cons, List.not_mem_nil, or_false] at h
  rcases h with rfl | rfl | rfl | rfl <;>
    exact ⟨isField_bare (List.all_eq_true.mp (by decide)) (by decide), _, _, rfl, by decide⟩

/-- No end of a line. -/
def Trailer.none : Trailer :=
  ⟨[], [], by simp [EndsWord], by simp [OneLine], Or.inl rfl, rfl⟩

section Lines

variable {first word : List Char} {fields ws : List (List Char)}

theorem isInkLine_fields (hf : EndsInk first) (hl : OneLine first) (hb : BeginsInk first)
    (hs : List.Forall₂ IsField fields ws) (t : Trailer) :
    IsInkLine (first ++ (spaced fields ++ t.chars)) := by
  induction hs generalizing first with
  | nil =>
    refine ⟨hl.append t.oneLine, hb.append_right _, ?_⟩
    rcases t.ends with hnil | hends
    · rw [hnil]
      simpa [spaced] using hf
    · exact (hends.append_left _).append_left _
  | @cons f w fields ws hfield _ ih =>
    have hspace : OneLine [' '] := by simp [OneLine, isLineBoundary]
    have hline : first ++ (spaced (f :: fields) ++ t.chars) =
        (first ++ ([' '] ++ f)) ++ (spaced fields ++ t.chars) := by simp [spaced]
    rw [hline]
    exact ih ((hfield.ends.append_left _).append_left _)
      (hl.append (hspace.append hfield.oneLine)) (hb.append_right _)

theorem words_fields (hf : IsField first word) (hs : List.Forall₂ IsField fields ws) (t : Trailer) :
    Text.words (String.ofList (first ++ (spaced fields ++ t.chars))) =
      .ok ((word :: ws).map String.ofList ++ t.words) :=
  words_line hf.spells (hs.imp fun _ _ h => h.spells) t.apart t.splits

end Lines

/-! ### The lines of a drawing -/

namespace Drawing

variable {g : Graph ℚ} (d : Drawing g)

/-- The words of the points of a route. -/
def pointWords (route : List Inches) : List String :=
  route.flatMap fun p => [p.1.text, p.2.text]

/-- The words of the line about an item. -/
def words : Item g → List String
  | .node v => "node" :: (g.nodes.get v).id :: (d.center v).1.text :: (d.center v).2.text ::
      (d.trailer (.node v)).words
  | .edge k => "edge" :: (g.edges.get k).source :: (g.edges.get k).target ::
      String.ofList (natDigits (d.route k).length) ::
        (pointWords (d.route k) ++ (d.trailer (.edge k)).words)

theorem forall₂_pointFields (route : List Inches) :
    List.Forall₂ IsField (pointFields route) (pointFields route) := by
  refine List.forall₂_same.mpr fun f hf => ?_
  obtain ⟨p, -, hf⟩ := List.mem_flatMap.mp hf
  rcases List.mem_pair.mp hf with rfl | rfl <;> exact isField_figure _

theorem map_pointFields (route : List Inches) :
    (pointFields route).map String.ofList = pointWords route := by
  simp [pointFields, pointWords, List.map_flatMap, Figure.text]

/-- The fields of a line spell its words. -/
theorem spells_fields (hid : ∀ id, Named g id → OneLine id.toList) (i : Item g) :
    ∃ ws, IsField (d.fields i).1 (d.fields i).1 ∧ BeginsInk (d.fields i).1 ∧
      List.Forall₂ IsField (d.fields i).2 ws ∧
      ((d.fields i).1 :: ws).map String.ofList ++ (d.trailer i).words = d.words i := by
  cases i with
  | node v =>
    obtain ⟨hfirst, hbegins⟩ := isField_keyword "node".toList (by simp)
    have hname : Named g (g.nodes.get v).id :=
      Or.inl (List.mem_map_of_mem (List.get_mem g.nodes v))
    refine ⟨_, hfirst, hbegins, .cons (isField_quoteId (hid _ hname))
      (.cons (isField_figure _) (.cons (isField_figure _) .nil)), ?_⟩
    simp [fields, words, Figure.text]
  | edge k =>
    obtain ⟨hfirst, hbegins⟩ := isField_keyword "edge".toList (by simp)
    have hnames : Named g (g.edges.get k).source ∧ Named g (g.edges.get k).target :=
      ⟨Or.inr ⟨_, List.get_mem g.edges k, Or.inl rfl⟩,
        Or.inr ⟨_, List.get_mem g.edges k, Or.inr rfl⟩⟩
    refine ⟨_, hfirst, hbegins, .cons (isField_quoteId (hid _ hnames.1))
      (.cons (isField_quoteId (hid _ hnames.2))
        (.cons (isField_natDigits _) (forall₂_pointFields (d.route k)))), ?_⟩
    simp [fields, words, map_pointFields]

theorem isInkLine_line (hid : ∀ id, Named g id → OneLine id.toList) (i : Item g) :
    IsInkLine (d.line i) := by
  obtain ⟨ws, hfirst, hbegins, hfields, -⟩ := d.spells_fields hid i
  exact isInkLine_fields hfirst.ends hfirst.oneLine hbegins hfields _

theorem words_line (hid : ∀ id, Named g id → OneLine id.toList) (i : Item g) :
    Text.words (String.ofList (d.line i)) = .ok (d.words i) := by
  obtain ⟨ws, hfirst, -, hfields, hwords⟩ := d.spells_fields hid i
  rw [line, words_fields hfirst hfields, hwords]

/-! ### What is read from the lines -/

theorem point?_text (p : Inches) : point? d.height.value p.1.text p.2.text = some (d.pixels p) := by
  have hinch : (pixelsPerInch : ℚ) = 96 := by
    rw [pixelsPerInch]
    norm_num
  simp [point?, readNumber?_figure, hinch, pixels, mul_comm]

theorem points?_words (route : List Inches) :
    points? d.height.value (pointWords route) = some (route.map d.pixels) := by
  induction route with
  | nil => rfl
  | cons p route ih =>
    have hwords : pointWords (p :: route) = p.1.text :: p.2.text :: pointWords route := rfl
    rw [hwords, points?, d.point?_text, ih]
    rfl

theorem length_pointWords (route : List Inches) : (pointWords route).length = 2 * route.length := by
  simp [pointWords, mul_comm]

/-- What is known after the line about an item. -/
def after (plain : Plain ℚ) : Item g → Plain ℚ
  | .node v => { plain with
      centers := setCenter (g.nodes.get v).id (d.pixels (d.center v)) plain.centers }
  | .edge k => { plain with
      routes := plain.routes ++ [(endsOf (g.edges.get k), (d.route k).map d.pixels)] }

/-- **What is read from a line** is its own center or route. -/
theorem take_words (plain : Plain ℚ) (i : Item g) :
    plain.take d.height.value (d.words i) = .ok (d.after plain i) := by
  cases i with
  | node v => simp only [words, Plain.take, d.point?_text, after]
  | edge k =>
    have hcount := readInt?_natDigits (d.countable k)
    have hslice : slice 4 (4 + 2 * ((d.route k).length : ℤ)) (d.words (.edge k)) =
        pointWords (d.route k) := by
      have hstop : (4 + 2 * ((d.route k).length : ℤ)).toNat =
          (pointWords (d.route k)).length + 4 := by
        rw [length_pointWords]
        omega
      have hpos : ¬ 4 + 2 * ((d.route k).length : ℤ) < 0 := by omega
      simp [slice, hpos, hstop, words]
    have hlength : ¬ ((pointWords (d.route k)).length : ℤ) < 2 * ((d.route k).length : ℤ) := by
      rw [length_pointWords]
      omega
    rw [words] at hslice ⊢
    simp only [Plain.take, hcount, hslice, hlength, if_false, d.points?_words, after]
    rfl

theorem line_ne_stop (i : Item g) : (String.ofList (d.line i) == "stop") = false := by
  have hne : d.line i ≠ "stop".toList := by cases i <;> simp [line, fields]
  refine beq_eq_false_iff_ne.mpr fun h => hne ?_
  rw [← h, String.toList_ofList]

/-- **What is read from lines**, taken in order up to the one that says so. -/
theorem takeLines_items (hid : ∀ id, Named g id → OneLine id.toList) (items : List (Item g))
    (plain : Plain ℚ) (more : List String) :
    plain.takeLines d.height.value
      (items.map (fun i => String.ofList (d.line i)) ++ "stop" :: more) =
        .ok (items.foldl d.after plain) := by
  induction items generalizing plain with
  | nil => rfl
  | cons i items ih =>
    rw [List.map_cons, List.cons_append, Plain.takeLines, d.line_ne_stop, d.words_line hid]
    simp only [Bool.false_eq_true, if_false, d.take_words]
    exact ih _

theorem readHeader_header : (readHeader (String.ofList d.header) : Except PlainFault ℚ) =
    .ok d.height.value := by
  have hwords := words_fields (isField_keyword "graph".toList (by simp)).1
    (.cons (isField_figure d.scale) (.cons (isField_figure d.width)
      (.cons (isField_figure d.height) .nil))) Trailer.none
  have hheader : d.header = "graph".toList ++
      (spaced [d.scale.chars, d.width.chars, d.height.chars] ++ Trailer.none.chars) := by
    simp [header, Trailer.none]
  rw [← hheader] at hwords
  have hheight : readNumber? (String.ofList d.height.chars) = some d.height.value :=
    readNumber?_figure d.height
  simp [readHeader, hwords, hheight]

theorem isInkLine_header : IsInkLine d.header := by
  obtain ⟨hfirst, hbegins⟩ := isField_keyword "graph".toList (by simp)
  have h := isInkLine_fields hfirst.ends hfirst.oneLine hbegins
    (.cons (isField_figure d.scale) (.cons (isField_figure d.width)
      (.cons (isField_figure d.height) .nil))) Trailer.none
  simpa [header, Trailer.none] using h

theorem inkLines_rest : ∃ more, inkLines (String.ofList ("stop".toList ++ d.rest)) =
    "stop" :: more := by
  obtain ⟨hfirst, hbegins⟩ := isField_keyword "stop".toList (by simp)
  have hstop : IsInkLine "stop".toList := ⟨hfirst.oneLine, hbegins, hfirst.ends⟩
  have hrest := d.rest_apart
  cases hr : d.rest with
  | nil => exact ⟨[], by rw [List.append_nil, hstop.inkLines_last]; rfl⟩
  | cons c next =>
    rw [hr] at hrest
    obtain rfl := hrest c rfl
    exact ⟨_, hstop.inkLines_cons next⟩

/-- **The output of a drawing is read** line by line. -/
theorem read_text (hid : ∀ id, Named g id → OneLine id.toList) :
    Plain.read d.text = .ok (d.items.foldl d.after {}) := by
  obtain ⟨more, hmore⟩ := d.inkLines_rest
  have hlines : inkLines d.text = String.ofList d.header ::
      (d.items.map (fun i => String.ofList (d.line i)) ++ "stop" :: more) := by
    have hall : ∀ cs ∈ d.header :: d.items.map d.line, IsInkLine cs :=
      List.forall_mem_cons.mpr ⟨d.isInkLine_header, fun cs hcs => by
        obtain ⟨i, -, rfl⟩ := List.mem_map.mp hcs
        exact d.isInkLine_line hid i⟩
    rw [text, inkLines_lines hall, hmore]
    simp
  have hstarts : (String.ofList d.header).startsWith "graph " = true := by
    rw [String.startsWith_string_iff, String.toList_ofList]
    exact ⟨d.scale.chars ++ spaced [d.width.chars, d.height.chars], by simp [header, spaced]⟩
  rw [Plain.read, hlines]
  simp only [hstarts, if_true, d.readHeader_header]
  exact d.takeLines_items hid d.items {} more

/-! ### The placement of a drawing -/

/-- The nodes in the order of their lines. -/
def nodeOrder : List (Fin g.nodes.length) := d.items.filterMap Item.node?

/-- The edges in the order of their lines. -/
def edgeOrder : List (Fin g.edges.length) := d.items.filterMap Item.edge?

/-- The id and the centre of a node. -/
def centerOf (v : Fin g.nodes.length) : String × Point ℚ :=
  ((g.nodes.get v).id, d.pixels (d.center v))

/-- The ends and the route of an edge. -/
def routeOf (k : Fin g.edges.length) : (String × String) × List (Point ℚ) :=
  (endsOf (g.edges.get k), (d.route k).map d.pixels)

theorem nodeOrder_perm : d.nodeOrder.Perm (List.finRange g.nodes.length) := by
  have h := d.all.filterMap Item.node?
  have hnodes : (Item.node? ∘ Item.node : Fin g.nodes.length → _) = some := rfl
  have hedges : (Item.node? ∘ Item.edge : Fin g.edges.length → _) = fun _ => none := rfl
  rw [List.filterMap_append, List.filterMap_map, List.filterMap_map, hnodes, hedges] at h
  simpa [nodeOrder] using h

theorem edgeOrder_perm : d.edgeOrder.Perm (List.finRange g.edges.length) := by
  have h := d.all.filterMap Item.edge?
  have hnodes : (Item.edge? ∘ Item.node : Fin g.nodes.length → _) = fun _ => none := rfl
  have hedges : (Item.edge? ∘ Item.edge : Fin g.edges.length → _) = some := rfl
  rw [List.filterMap_append, List.filterMap_map, List.filterMap_map, hnodes, hedges] at h
  simpa [edgeOrder] using h

theorem after_node {plain : Plain ℚ} {v : Fin g.nodes.length}
    (h : (d.centerOf v).1 ∉ plain.centers.map (·.1)) :
    d.after plain (.node v) = { plain with centers := plain.centers ++ [d.centerOf v] } := by
  have hset : setCenter (d.centerOf v).1 (d.centerOf v).2 plain.centers =
      plain.centers ++ [d.centerOf v] := if_neg (by simpa using h)
  exact congrArg (fun centers => { plain with centers }) hset

/-- The lines of a drawing name no node twice. -/
theorem foldl_after (items : List (Item g)) (plain : Plain ℚ)
    (hd : (plain.centers.map (·.1) ++
      (items.filterMap Item.node?).map fun v => (d.centerOf v).1).Nodup) :
    items.foldl d.after plain =
      { centers := plain.centers ++ (items.filterMap Item.node?).map d.centerOf
        routes := plain.routes ++ (items.filterMap Item.edge?).map d.routeOf } := by
  induction items generalizing plain with
  | nil => simp
  | cons i items ih =>
    cases i with
    | edge k =>
      have hnodes : (Item.edge k :: items).filterMap Item.node? = items.filterMap Item.node? := rfl
      have hedges : (Item.edge k :: items).filterMap Item.edge? =
          k :: items.filterMap Item.edge? := rfl
      have hafter : d.after plain (.edge k) =
          { plain with routes := plain.routes ++ [d.routeOf k] } := rfl
      rw [hnodes] at hd ⊢
      rw [List.foldl_cons, hafter, ih, hedges, List.map_cons, List.append_assoc]
      · rfl
      · exact hd
    | node v =>
      have hnodes : (Item.node v :: items).filterMap Item.node? =
          v :: items.filterMap Item.node? := rfl
      have hedges : (Item.node v :: items).filterMap Item.edge? = items.filterMap Item.edge? := rfl
      rw [hnodes, List.map_cons] at hd
      have hnew : (d.centerOf v).1 ∉ plain.centers.map (·.1) := fun hmem =>
        (List.nodup_append.mp hd).2.2 _ hmem _ List.mem_cons_self rfl
      rw [List.foldl_cons, d.after_node hnew, ih, hnodes, hedges, List.map_cons, List.append_assoc]
      · rfl
      · simpa using hd

theorem map_centerOf : (List.finRange g.nodes.length).map (fun v => (d.centerOf v).1) = g.ids := by
  conv_rhs => rw [Graph.ids, ← List.map_get_finRange g.nodes, List.map_map]
  rfl

theorem nodup_centers (hn : g.ids.Nodup) : (d.nodeOrder.map fun v => (d.centerOf v).1).Nodup :=
  ((d.nodeOrder_perm.map _).nodup_iff).mpr (d.map_centerOf ▸ hn)

theorem foldl_items (hn : g.ids.Nodup) : d.items.foldl d.after {} =
    { centers := d.nodeOrder.map d.centerOf, routes := d.edgeOrder.map d.routeOf } := by
  refine (d.foldl_after d.items {} ?_).trans (by simp [nodeOrder, edgeOrder])
  exact d.nodup_centers hn

/-- The lines of parallel edges come in the order of the edges. -/
theorem filter_edgeOrder (ends : String × String) :
    d.edgeOrder.filter (fun k => (d.routeOf k).1 == ends) =
      (List.finRange g.edges.length).filter (fun k => (d.routeOf k).1 == ends) := by
  have hparallel : (d.edgeOrder.filter fun k => (d.routeOf k).1 == ends).Pairwise (· < ·) := by
    refine (d.parallel.filter _).imp_of_mem fun {j k} hj hk hlt => hlt ?_
    have hj := eq_of_beq (List.mem_filter.mp hj).2
    have hk := eq_of_beq (List.mem_filter.mp hk).2
    exact hj.trans hk.symm
  exact (d.edgeOrder_perm.filter _).eq_of_pairwise
    (fun j k _ _ hjk hkj => absurd hkj (lt_asymm hjk)) hparallel
    ((List.pairwise_lt_finRange _).filter _)

/-- The routes of the edges, in the order of the edges. -/
def routes : List (List (Point ℚ)) :=
  (List.finRange g.edges.length).map fun k => (d.route k).map d.pixels

theorem zip_routes : (g.edges.map endsOf).zip d.routes =
    (List.finRange g.edges.length).map d.routeOf := by
  have hends : g.edges.map endsOf =
      (List.finRange g.edges.length).map fun k => endsOf (g.edges.get k) := by
    conv_lhs => rw [← List.map_get_finRange g.edges, List.map_map]
    rfl
  rw [hends, routes, List.zip_map']
  rfl

theorem assignRoutes_edgeOrder :
    assignRoutes (d.edgeOrder.map d.routeOf) g.edges = .ok d.routes := by
  refine assignRoutes_eq (by simp [routes]) (fun points hp => ?_) fun ends => ?_
  · obtain ⟨k, -, rfl⟩ := List.mem_map.mp hp
    simpa using d.two_le k
  · rw [d.zip_routes, List.filter_map, List.filter_map]
    exact congrArg (List.map d.routeOf) (d.filter_edgeOrder ends)

/-- **A drawing is read back from its output**: every node gets its own centre and every edge its
own route, whatever the order of the lines is. -/
theorem placement_drawing (hn : g.ids.Nodup) (hid : ∀ id, Named g id → OneLine id.toList) :
    ∃ placed, placement g d.text = .ok placed ∧
      (∀ v, placed.centers.lookup (g.nodes.get v).id = some (d.pixels (d.center v))) ∧
      placed.routes = (List.finRange g.edges.length).map fun k => (d.route k).map d.pixels := by
  have hmem : ∀ v, v ∈ d.nodeOrder := fun v => d.nodeOrder_perm.mem_iff.mpr (List.mem_finRange v)
  have hcovered : g.nodes.find? (fun u => !(d.nodeOrder.map d.centerOf).any (·.1 == u.id)) =
      none := by
    refine List.find?_eq_none.mpr fun u hu => ?_
    obtain ⟨v, rfl⟩ := List.mem_iff_get.mp hu
    simpa using ⟨v, hmem v, rfl⟩
  refine ⟨⟨d.nodeOrder.map d.centerOf, d.routes⟩, ?_, fun v => ?_, rfl⟩
  · rw [placement, d.read_text hid, d.foldl_items hn]
    simp only [bind, Except.bind, hcovered, d.assignRoutes_edgeOrder]
    rfl
  · refine Layered.lookup_of_mem ?_ (List.mem_map_of_mem (hmem v))
    rw [List.map_map]
    exact d.nodup_centers hn

/-- Two parallel edges to a node whose id is a quote and a backslash. -/
def crossed : Graph ℚ :=
  { nodes := [{ id := "\"\\", label := "" }, { id := "b c", label := "" }]
    edges := [⟨"b c", "\"\\", []⟩, ⟨"b c", "\"\\", []⟩]
    marginX := 0, marginY := 0, nodeGap := 0, rankGap := 0 }

/-- The end of a line about a box. -/
def boxTrailer : Trailer where
  chars := " 1 .5 \"\" solid box".toList
  words := ["1", ".5", "", "solid", "box"]
  apart := by simp [EndsWord]
  oneLine := by decide
  ends := Or.inr ⟨" 1 .5 \"\" solid bo".toList, 'x', rfl, by decide⟩
  splits := rfl

/-- A number with one digit behind the point, as it is written. -/
def tenths (whole part : Fin 10) : Figure :=
  { whole := [whole], part := some [part], nonempty := by simp }

/-- A drawing of the two edges, with the lines of the edges first. -/
def crossedDrawing : Drawing crossed where
  scale := tenths 1 0
  width := tenths 4 0
  height := tenths 2 0
  center v := if v.val = 0 then (tenths 0 5, tenths 1 5) else (tenths 2 0, tenths 0 5)
  route k := if k.val = 0 then [(tenths 2 0, tenths 0 8), (tenths 0 5, tenths 1 2)]
    else [(tenths 1 9, tenths 0 8), (tenths 1 0, tenths 1 0), (tenths 0 6, tenths 1 2)]
  items := [.edge ⟨0, by decide⟩, .node ⟨1, by decide⟩, .edge ⟨1, by decide⟩, .node ⟨0, by decide⟩]
  trailer i := match i with
    | .node _ => boxTrailer
    | .edge _ => Trailer.none
  rest := "\n".toList
  two_le := by decide
  countable := by decide
  all := by decide
  parallel := by decide
  rest_apart := by simp

/-- The crossed drawing is read back. -/
theorem placement_drawing_crossed : ∃ placed, placement crossed crossedDrawing.text = .ok placed ∧
    placed.centers.lookup "\"\\" = some (crossedDrawing.pixels (tenths 0 5, tenths 1 5)) ∧
    placed.routes.map List.length = [2, 3] := by
  have hid : ∀ id, Named crossed id → OneLine id.toList := fun id h => by
    have hid : id = "\"\\" ∨ id = "b c" := by
      simp only [Named, crossed, Graph.ids, List.map_cons, List.map_nil, List.mem_cons,
        List.not_mem_nil, or_false, exists_eq_or_imp, exists_eq_left] at h
      tauto
    rcases hid with rfl | rfl <;> decide
  obtain ⟨placed, hplaced, hcenters, hroutes⟩ :=
    placement_drawing crossedDrawing (by decide) hid
  exact ⟨placed, hplaced, hcenters ⟨0, by decide⟩, hroutes ▸ rfl⟩

end Drawing

end Scrawl.Graphviz
