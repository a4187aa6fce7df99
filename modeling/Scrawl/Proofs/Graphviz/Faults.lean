import Scrawl.Pipeline
import Scrawl.Proofs.Description.Acceptance
import Scrawl.Proofs.Text.Lines

/-!
# Scrawl.Proofs.Graphviz.Faults — why the output of dot is refused

Every fault of the output is one of the layout, but for one: a line that cannot be split into words,
because a quotation is not closed or an escape is cut off, has the fault of the splitting.  The
output is taken line by line, so this fault is met if and only if all that is before the line is
taken in.  A line that can be split has a first word.

* `words_inkLines`: a line that is not blank is not without words.
* `takeLines_unreadable`: which line cannot be split.
* `placement_fault`: the faults of the output for a graph.
-/

namespace Scrawl.Graphviz

open Text Decimal

/-- The fault is reported as one of the layout. -/
def PlainFault.IsLayout (fault : PlainFault) : Prop :=
  (PipelineFault.layout (.engine (.plain fault))).code? = some .layout

theorem PlainFault.isLayout_or (fault : PlainFault) :
    fault.IsLayout ∨ ∃ e, fault = .unreadable e := by
  cases fault with
  | unreadable e => exact Or.inr ⟨e, rfl⟩
  | missingHeader | malformedHeader | malformed | truncatedPoints | missingNode | missingEdge
  | fewPoints => exact Or.inl rfl

theorem PlainFault.not_isLayout_unreadable (e : WordError) : ¬ (unreadable e).IsLayout := by
  intro h
  cases h

/-! ### The first word -/

theorem wordsFrom_ne_nil {mode : WordMode} (h : mode ≠ .gap) (word cs : List Char) :
    wordsFrom mode word cs ≠ .ok [] := by
  induction cs generalizing mode word with
  | nil => cases mode <;> simp_all [wordsFrom]
  | cons c cs ih =>
    cases mode with
    | gap => exact absurd rfl h
    | bare =>
      rw [wordsFrom]
      split_ifs
      · cases wordsFrom .gap [] cs <;> simp [Except.map]
      · exact ih (by simp) _
      · exact ih (by simp) _
      · exact ih (by simp) _
    | escaped => exact ih (by simp) _
    | inside quote =>
      rw [wordsFrom]
      split_ifs <;> exact ih (by simp) _
    | insideEscaped =>
      rw [wordsFrom]
      split_ifs <;> exact ih (by simp) _

theorem words_ne_nil {cs : List Char} (h : BeginsInk cs) : words (String.ofList cs) ≠ .ok [] := by
  obtain ⟨c, rest, rfl, hc⟩ := h
  have hgap : isWordGap c = false := by
    cases hgap : isWordGap c with
    | false => rfl
    | true =>
      have : c = ' ' ∨ c = '\t' ∨ c = '\r' ∨ c = '\n' := by simpa [isWordGap, or_assoc] using hgap
      rcases this with rfl | rfl | rfl | rfl <;> exact absurd hc (by decide)
  have hfrom : wordsFrom .gap [] (c :: rest) ≠ .ok [] := by
    rw [wordsFrom, hgap, if_neg (by simp)]
    split_ifs <;> exact wordsFrom_ne_nil (by simp) _ _
  intro hnone
  rw [words, String.toList_ofList] at hnone
  cases hws : wordsFrom .gap [] (c :: rest) with
  | error e =>
    rw [hws] at hnone
    cases hnone
  | ok ws =>
    rw [hws] at hnone hfrom
    obtain rfl : ws = [] := List.map_eq_nil_iff.mp (Except.ok.inj hnone)
    exact hfrom rfl

theorem beginsInk_stripChars {cs : List Char} (h : stripChars isBlank cs ≠ []) :
    BeginsInk (stripChars isBlank cs) := by
  have hprefix : stripChars isBlank cs <+: cs.dropWhile isBlank := by
    rw [stripChars, ← List.reverse_suffix, List.reverse_reverse]
    exact List.dropWhile_suffix _
  obtain ⟨c, rest, hstrip⟩ := List.exists_cons_of_ne_nil h
  obtain ⟨more, hmore⟩ := hprefix
  rw [hstrip] at hmore ⊢
  have hhead := List.head?_dropWhile_not isBlank cs
  rw [← hmore] at hhead
  exact ⟨c, rest, rfl, by simpa using hhead⟩

/-- **A line that is not blank has a word**, if it can be split. -/
theorem words_inkLines {text line : String} (h : line ∈ inkLines text) : words line ≠ .ok [] := by
  obtain ⟨hline, hink⟩ := List.mem_filter.mp h
  obtain ⟨source, -, rfl⟩ := List.mem_map.mp hline
  exact words_ne_nil (beginsInk_stripChars (by simpa [strip] using hink))

section Lines

variable {α : Type} [Sub α] [Mul α] [OfScientific α] [OfNumeral α]

/-- What is taken in from a line. -/
def Plain.takeLine (height : α) (plain : Plain α) (line : String) : Except PlainFault (Plain α) :=
  match words line with
  | .error e => .error (.unreadable e)
  | .ok ws => plain.take height ws

theorem takeLines_cons (height : α) (plain : Plain α) {line : String} (h : line ≠ "stop")
    (lines : List String) : plain.takeLines height (line :: lines) =
      plain.takeLine height line >>= fun next => next.takeLines height lines := by
  have hne : (line == "stop") = false := by simpa using h
  simp only [Plain.takeLines, Plain.takeLine, hne, Bool.false_eq_true, if_false]
  cases words line with
  | error e => rfl
  | ok ws =>
    dsimp only
    cases plain.take height ws <;> rfl

/-- Lines without `stop` are taken in before those behind them. -/
theorem takeLines_append (height : α) (plain : Plain α) {before : List String}
    (h : "stop" ∉ before) (behind : List String) : plain.takeLines height (before ++ behind) =
      plain.takeLines height before >>= fun next => next.takeLines height behind := by
  induction before generalizing plain with
  | nil => rfl
  | cons line before ih =>
    rw [List.mem_cons, not_or] at h
    obtain ⟨hline, hbefore⟩ := h
    rw [List.cons_append, takeLines_cons height plain (Ne.symm hline),
      takeLines_cons height plain (Ne.symm hline)]
    cases plain.takeLine height line with
    | error fault => rfl
    | ok next => exact ih next hbefore

theorem take_ne_unreadable (height : α) (plain : Plain α) (ws : List String) (e : WordError) :
    plain.take height ws ≠ .error (.unreadable e) := by
  intro h
  unfold Plain.take at h
  split at h
  · split at h
    · split at h <;> cases h
    · cases h
  · split at h
    · split at h
      · cases h
      · dsimp only at h
        split_ifs at h
        · cases h
        · split at h <;> cases h
    · cases h
  · cases h

/-- Only the splitting of a line has the fault of the splitting. -/
theorem takeLine_unreadable {height : α} {plain : Plain α} {line : String} {e : WordError} :
    plain.takeLine height line = .error (.unreadable e) ↔ words line = .error e := by
  unfold Plain.takeLine
  cases words line with
  | error e' => simp
  | ok ws => simp [take_ne_unreadable]

/-- A line that cannot be split has all lines before it taken in. -/
theorem exists_unreadable {height : α} {plain : Plain α} {lines : List String} {e : WordError}
    (h : plain.takeLines height lines = .error (.unreadable e)) :
    ∃ before line after plain', lines = before ++ line :: after ∧ "stop" ∉ before ∧
      plain.takeLines height before = .ok plain' ∧ words line = .error e := by
  induction lines generalizing plain with
  | nil => cases h
  | cons first lines ih =>
    by_cases hstop : first = "stop"
    · subst hstop
      cases h
    rw [takeLines_cons height plain hstop] at h
    cases hfirst : plain.takeLine height first with
    | error fault =>
      rw [hfirst] at h
      cases h
      exact ⟨[], first, lines, plain, rfl, List.not_mem_nil, rfl, takeLine_unreadable.mp hfirst⟩
    | ok next =>
      rw [hfirst] at h
      obtain ⟨before, line, after, plain', rfl, hbefore, htake, hline⟩ := ih h
      refine ⟨first :: before, line, after, plain', rfl, ?_, ?_, hline⟩
      · rw [List.mem_cons, not_or]
        exact ⟨Ne.symm hstop, hbefore⟩
      · rw [takeLines_cons height plain hstop, hfirst]
        exact htake

/-- **The line that cannot be split** is the first one that is at fault, and it is read: no line
`stop` is before it. -/
theorem takeLines_unreadable {height : α} {plain : Plain α} {lines : List String} {e : WordError} :
    plain.takeLines height lines = .error (.unreadable e) ↔
      ∃ before line after plain', lines = before ++ line :: after ∧ "stop" ∉ before ∧
        plain.takeLines height before = .ok plain' ∧ words line = .error e := by
  refine ⟨exists_unreadable, ?_⟩
  rintro ⟨before, line, after, plain', rfl, hbefore, htake, hline⟩
  -- the line is not `stop`, which is a word
  have hstop : line ≠ "stop" := by
    rintro rfl
    cases hline
  rw [takeLines_append height plain hbefore, htake]
  change plain'.takeLines height (line :: after) = _
  rw [takeLines_cons height plain' hstop, takeLine_unreadable.mpr hline]
  rfl

/-! ### Headers and graphs -/

omit [Sub α] [Mul α] [OfScientific α] in
theorem readHeader_unreadable {line : String} {e : WordError} :
    (readHeader line : Except PlainFault α) = .error (.unreadable e) ↔ words line = .error e := by
  unfold readHeader
  cases words line with
  | error e' => simp
  | ok ws =>
    dsimp only
    cases ws[3]?.bind (readNumber? : String → Option α) <;> simp

/-- A line of the output that is read cannot be split: the header, or a line behind it of which all
lines before it have been taken in. -/
def Unsplit (α : Type) [Sub α] [Mul α] [OfScientific α] [OfNumeral α] (lines : List String)
    (e : WordError) : Prop :=
  ∃ header rest, lines = header :: rest ∧ header.startsWith "graph " ∧
    (words header = .error e ∨
      ∃ (height : α) (before : List String) (line : String) (after : List String) (plain : Plain α),
        readHeader header = .ok height ∧ rest = before ++ line :: after ∧ "stop" ∉ before ∧
          Plain.takeLines height {} before = .ok plain ∧ words line = .error e)

theorem read_unreadable {text : String} {e : WordError} :
    (Plain.read text : Except PlainFault (Plain α)) = .error (.unreadable e) ↔
      Unsplit α (inkLines text) e := by
  unfold Plain.read
  cases inkLines text with
  | nil =>
    constructor
    · intro h
      cases h
    · rintro ⟨header, rest, h, -⟩
      cases h
  | cons header rest =>
    dsimp only
    split_ifs with hstart
    · constructor
      · intro h
        cases hheader : (readHeader header : Except PlainFault α) with
        | error fault =>
          rw [hheader] at h
          cases h
          exact ⟨header, rest, rfl, hstart, Or.inl (readHeader_unreadable.mp hheader)⟩
        | ok height =>
          rw [hheader] at h
          obtain ⟨before, line, after, plain, hrest, hbefore, htake, hline⟩ :=
            takeLines_unreadable.mp h
          exact ⟨header, rest, rfl, hstart, Or.inr
            ⟨height, before, line, after, plain, hheader, hrest, hbefore, htake, hline⟩⟩
      · rintro ⟨header', rest', h, -, hcase⟩
        obtain ⟨rfl, rfl⟩ := List.cons_eq_cons.mp h
        rcases hcase with hline | ⟨height, before, line, after, plain, hheader, hlines⟩
        · rw [readHeader_unreadable.mpr hline]
          rfl
        · rw [hheader]
          exact takeLines_unreadable.mpr ⟨before, line, after, plain, hlines⟩
    · constructor
      · intro h
        cases h
      · rintro ⟨header', rest', h, hstart', -⟩
        obtain ⟨rfl, rfl⟩ := List.cons_eq_cons.mp h
        exact absurd hstart' hstart

omit [Sub α] [Mul α] [OfScientific α] [OfNumeral α] in
theorem assignRoutes_ne_unreadable {routes : List ((String × String) × List (Point α))}
    {edges : List (Edge α)} {e : WordError} : assignRoutes routes edges ≠ .error (.unreadable e) := by
  induction edges generalizing routes with
  | nil =>
    intro h
    cases h
  | cons edge edges ih =>
    intro h
    unfold assignRoutes at h
    split at h
    · cases h
    · split_ifs at h
      · cases h
      · dsimp only at h
        cases hrest : assignRoutes (routes.eraseP (·.1 == (edge.source, edge.target))) edges with
        | error fault =>
          rw [hrest] at h
          cases h
          exact ih hrest
        | ok given =>
          rw [hrest] at h
          cases h

theorem placement_unreadable (g : Graph α) (text : String) (e : WordError) :
    placement g text = .error (.unreadable e) ↔ Unsplit α (inkLines text) e := by
  rw [← read_unreadable]
  unfold placement
  cases hread : (Plain.read text : Except PlainFault (Plain α)) with
  | error fault => exact ⟨fun h => by cases h; rfl, fun h => by cases h; rfl⟩
  | ok plain =>
    constructor
    · intro h
      dsimp only [bind, Except.bind] at h
      split at h
      · cases h
      · cases hroutes : assignRoutes plain.routes g.edges with
        | error fault =>
          rw [hroutes] at h
          cases h
          exact absurd hroutes assignRoutes_ne_unreadable
        | ok routes =>
          rw [hroutes] at h
          cases h
    · intro h
      cases h

/-- **The faults of the output for a graph** are reported as faults of the layout if and only if all
lines that are read can be split: else the fault is that of the splitting.  A line that can be split
has a first word, which says what the line is about. -/
theorem placement_fault (g : Graph α) (text : String) :
    (∀ fault, placement g text = .error fault →
      (fault.IsLayout ↔ ∀ e, ¬ Unsplit α (inkLines text) e)) ∧
    (∀ e, placement g text = .error (.unreadable e) ↔ Unsplit α (inkLines text) e) ∧
    ∀ line ∈ inkLines text, words line ≠ .ok [] := by
  have hunsplit : ∀ e, placement g text = .error (.unreadable e) ↔ Unsplit α (inkLines text) e :=
    placement_unreadable g text
  refine ⟨fun fault hfault => ⟨fun hlayout e he => ?_, fun hsplit => ?_⟩, hunsplit,
    fun line => words_inkLines⟩
  · obtain rfl : fault = .unreadable e := Except.error.inj (hfault.symm.trans ((hunsplit e).mpr he))
    exact PlainFault.not_isLayout_unreadable e hlayout
  · rcases fault.isLayout_or with hlayout | ⟨e, rfl⟩
    · exact hlayout
    · exact absurd ((hunsplit e).mp hfault) (hsplit e)
end Lines

/-! ### An open quotation -/

/-- A graph of one node. -/
def loneGraph : Graph Float :=
  { nodes := [{ id := "a", label := "a", width := some 96, height := some 48 }]
    marginX := 18, marginY := 18, nodeGap := 50, rankGap := 50 }

/-- An output that ends within the quotation of an id. -/
def cutOutput : String := "graph 1 1 1\nnode \"a"

theorem unsplit_cutOutput : Unsplit Float (inkLines cutOutput) .noClosingQuotation := by
  obtain ⟨height, hheight⟩ : ∃ height, (readHeader "graph 1 1 1" : Except _ Float) = .ok height :=
    Description.exists_ok_of_isOk (by decide +kernel)
  exact ⟨"graph 1 1 1", ["node \"a"], by decide +kernel, by decide +kernel,
    Or.inr ⟨height, [], "node \"a", [], {}, hheight, rfl, List.not_mem_nil, rfl, by decide +kernel⟩⟩

theorem placement_fault_cut :
    Unsplit Float (inkLines cutOutput) .noClosingQuotation ∧
    placement loneGraph cutOutput = .error (.unreadable .noClosingQuotation) :=
  ⟨unsplit_cutOutput, ((placement_fault loneGraph cutOutput).2.1 _).mpr unsplit_cutOutput⟩

/-- **A fault that is not one of the layout**: the output is refused for its quotation. -/
theorem placement_not_isLayout :
    ¬ ∀ fault, placement loneGraph cutOutput = .error fault → fault.IsLayout := by
  intro hall
  exact PlainFault.not_isLayout_unreadable .noClosingQuotation
    (hall _ ((placement_unreadable _ _ _).mpr unsplit_cutOutput))

end Scrawl.Graphviz
