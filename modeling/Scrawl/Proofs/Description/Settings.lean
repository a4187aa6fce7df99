import Scrawl.Proofs.Description.Content
import Scrawl.Proofs.Description.Direction

/-!
# Scrawl.Proofs.Description.Settings — the settings that count

Settings of the graph act in order, so the last one of a name decides.  An attribute list is made
into a map first, whose names differ where their case does: each spelling keeps the place where it
is first met and takes its last value.  So within a list the last setting of a name need not count,
and one that another of its spelling follows is not looked at.

* `lastOf?`: the value given last to a name, in any case.
* `lastOf?_lastValues`: the map of a list keeps it where each name has one spelling, or no spelling
  is used twice.
* `setBy_act`, `setBy_actFrom`: what a statement and what all of them do to direction and gaps.
* `read_settings`: direction and gaps of the graph that is read, and which settings are refused.
-/

namespace Scrawl.Description

variable {g g₁ g₂ : Graph Float} {name : String}

/-! ### The value given last -/

/-- The value given last to a name, in any case. -/
def lastOf? (name : String) (assigned : Attributes) : Option String :=
  (assigned.filter (Text.lower ·.1 == name)).getLast?.map (·.2)

theorem lastOf?_append (as bs : Attributes) :
    lastOf? name (as ++ bs) = (lastOf? name bs).or (lastOf? name as) := by
  unfold lastOf?
  rw [List.filter_append, List.getLast?_append]
  cases (bs.filter (Text.lower ·.1 == name)).getLast? <;> rfl

theorem lastOf?_single (key value : String) :
    lastOf? name [(key, value)] = if Text.lower key = name then some value else none := by
  by_cases h : Text.lower key = name <;> simp [lastOf?, h]

/-! ### The map of a list -/

theorem filter_putValue (p : String → Bool) (done : Attributes) (key value : String) :
    (putValue done key value).filter (p ·.1) =
      if p key then putValue (done.filter (p ·.1)) key value else done.filter (p ·.1) := by
  -- `p` sees the same names after the change of a value
  have hmap : ∀ f : String × String → String × String, (∀ a, (f a).1 = a.1) →
      (done.map f).filter (p ·.1) = (done.filter (p ·.1)).map f := by
    intro f hf
    rw [List.filter_map]
    congr 2
    funext a
    exact congrArg p (hf a)
  have hname : ∀ a : String × String, (if a.1 == key then (a.1, value) else a).1 = a.1 := by
    intro a
    split_ifs <;> rfl
  by_cases hkey : p key
  · have hany : (done.filter (p ·.1)).any (·.1 == key) = done.any (·.1 == key) := by
      rw [List.any_filter]
      congr 1
      funext a
      by_cases ha : a.1 = key <;> simp [ha, hkey]
    rw [if_pos hkey, putValue, putValue, hany]
    split_ifs
    · exact hmap _ hname
    · simp [hkey]
  · rw [if_neg hkey, putValue]
    split_ifs
    · rw [hmap _ hname]
      refine (List.map_congr_left fun a ha => ?_).trans (List.map_id _)
      have hne : a.1 ≠ key := fun he => hkey (he ▸ (List.mem_filter.mp ha).2)
      simp [hne]
    · simp [hkey]

/-- The map of the settings of some names is that part of the map of all. -/
theorem filter_lastValues (p : String → Bool) (attributes : Attributes) :
    (lastValues attributes).filter (p ·.1) = lastValues (attributes.filter (p ·.1)) := by
  induction attributes using List.reverseRecOn with
  | nil => rfl
  | append_singleton attributes a ih =>
    obtain ⟨key, value⟩ := a
    rw [lastValues_concat, filter_putValue, ih, List.filter_append]
    by_cases hkey : p key
    · simp [hkey, lastValues_concat]
    · simp [hkey]

theorem lastValues_of_same {key : String} {attributes : Attributes}
    (h : ∀ a ∈ attributes, a.1 = key) : lastValues attributes = attributes.getLast?.toList := by
  induction attributes using List.reverseRecOn with
  | nil => rfl
  | append_singleton attributes a ih =>
    obtain ⟨hbefore, ha⟩ := List.forall_mem_append.mp h
    obtain ⟨k, value⟩ := a
    obtain rfl : k = key := ha _ List.mem_cons_self
    rw [lastValues_concat, ih hbefore, List.getLast?_concat]
    cases hlast : attributes.getLast? with
    | none => rfl
    | some b =>
      have hb : b.1 = k := hbefore b (List.mem_of_getLast? hlast)
      simp [putValue, hb]

/-- Whether the list has one spelling of the name, or each spelling of it once. -/
def InOrder (name : String) (attributes : Attributes) : Prop :=
  (∃ key, ∀ a ∈ attributes, Text.lower a.1 = name → a.1 = key) ∨
    ((attributes.filter (Text.lower ·.1 == name)).map (·.1)).Nodup

theorem lastOf?_lastValues {attributes : Attributes} (h : InOrder name attributes) :
    lastOf? name (lastValues attributes) = lastOf? name attributes := by
  unfold lastOf?
  rw [filter_lastValues (Text.lower · == name)]
  rcases h with ⟨key, hkey⟩ | hnodup
  · have hsame : ∀ a ∈ attributes.filter (Text.lower ·.1 == name), a.1 = key := by
      intro a ha
      obtain ⟨hmem, hname⟩ := List.mem_filter.mp ha
      exact hkey a hmem (by simpa using hname)
    rw [lastValues_of_same hsame]
    cases (attributes.filter (Text.lower ·.1 == name)).getLast? <;> rfl
  · rw [lastValues_of_nodup hnodup]

/-! ### What settings do -/

/-- Whether the text names the direction, in any case of its letters. -/
def NamesDirection (value : String) (direction : Direction) : Prop :=
  direction ∈ Direction.all ∧ direction.name = Text.upperAscii value

/-- Whether the text is a numeral for the double, a finite number that is not negative. -/
def NamesGap (value : String) (gap : Float) : Prop :=
  Decimal.IsMagnitude gap ∧ ∃ numeral, Decimal.Numeral.read? value = some numeral ∧
    Decimal.Binary.ofFloat gap = numeral.toBinary

theorem namesGap_of_readGap? {value : String} {gap : Float} (h : readGap? value = some gap) :
    NamesGap value gap := by
  refine ⟨isMagnitude_of_readGap? h, ?_⟩
  unfold readGap? at h
  split at h
  · next negative m e hn =>
    obtain ⟨numeral, hread, hb⟩ := Option.map_eq_some_iff.mp hn
    split_ifs at h
    cases h
    have hdouble : (Decimal.Binary.finite negative m e).IsDouble :=
      hb ▸ Decimal.Binary.isDouble_toBinary numeral
    exact ⟨numeral, hread, (Decimal.Binary.ofFloat_toFloat hdouble).trans hb.symm⟩
  · cases h

/-- Whether `x` is what is meant by the value, or is as before where there is none. -/
def Chosen {β : Type} (meant : String → β → Prop) (before : β) : Option String → β → Prop
  | none, x => x = before
  | some value, x => meant value x

theorem Chosen.trans {β : Type} {meant : String → β → Prop} {x y z : β} {o o' : Option String}
    (h : Chosen meant x o y) (h' : Chosen meant y o' z) : Chosen meant x (o'.or o) z := by
  cases o' with
  | some value => exact h'
  | none =>
    obtain rfl : z = y := h'
    exact h

/-- Direction and gaps of `g'` are what the settings say that come last, and else those of `g`. -/
structure SetBy (g : Graph Float) (assigned : Attributes) (g' : Graph Float) : Prop where
  direction : Chosen NamesDirection g.direction (lastOf? "rankdir" assigned) g'.direction
  nodeGap : Chosen NamesGap g.nodeGap (lastOf? "nodesep" assigned) g'.nodeGap
  rankGap : Chosen NamesGap g.rankGap (lastOf? "ranksep" assigned) g'.rankGap

theorem SetBy.trans {as bs : Attributes} (h : SetBy g as g₁) (h' : SetBy g₁ bs g₂) :
    SetBy g (as ++ bs) g₂ := by
  refine ⟨?_, ?_, ?_⟩
  · rw [lastOf?_append]
    exact h.direction.trans h'.direction
  · rw [lastOf?_append]
    exact h.nodeGap.trans h'.nodeGap
  · rw [lastOf?_append]
    exact h.rankGap.trans h'.rankGap

theorem setBy_nil (h : g₁.spacing = g.spacing) : SetBy g [] g₁ := by
  obtain ⟨hd, hn, hr⟩ : g₁.direction = g.direction ∧ g₁.nodeGap = g.nodeGap ∧
      g₁.rankGap = g.rankGap := by simpa [Graph.spacing] using h
  exact ⟨hd, hn, hr⟩

theorem setBy_setAttribute {key value : String} (h : setAttribute g key value = .ok g₁) :
    SetBy g [(key, value)] g₁ := by
  unfold setAttribute at h
  split at h
  · next hkey =>
    split at h <;> cases h
    next d hd =>
    have hname : d.name = Text.upperAscii value := by simpa using List.find?_some hd
    refine ⟨?_, ?_, ?_⟩ <;> simp only [lastOf?_single, hkey]
    · exact ⟨List.mem_of_find?_eq_some hd, hname⟩
    · rfl
    · rfl
  · next hkey =>
    cases hgap : readGap? value <;> rw [hgap] at h <;> cases h
    refine ⟨?_, ?_, ?_⟩ <;> simp only [lastOf?_single, hkey]
    · rfl
    · exact namesGap_of_readGap? hgap
    · rfl
  · next hkey =>
    cases hgap : readGap? value <;> rw [hgap] at h <;> cases h
    refine ⟨?_, ?_, ?_⟩ <;> simp only [lastOf?_single, hkey]
    · rfl
    · rfl
    · exact namesGap_of_readGap? hgap
  · next hdir hnode hrank =>
    cases h
    refine ⟨?_, ?_, ?_⟩ <;> rw [lastOf?_single, if_neg (by assumption)] <;> rfl

theorem setBy_setAll {attributes : Attributes}
    (h : attributes.foldlM (fun g (key, value) => setAttribute g key value) g = .ok g₁) :
    SetBy g attributes g₁ := by
  induction attributes generalizing g with
  | nil =>
    cases h
    exact setBy_nil rfl
  | cons a attributes ih =>
    rw [List.foldlM_cons] at h
    obtain ⟨g₂, h₁, h₂⟩ := ok_of_bind_ok h
    exact (setBy_setAttribute h₁).trans (ih h₂)

/-! ### Statements -/

namespace Statement

/-- The settings of the graph that the statement has, in order. -/
def assigned : Statement → Attributes
  | graphAttributes attributes _ => attributes
  | _ => []

/-- The settings that the statement makes, in order. -/
def applied (s : Statement) : Attributes := lastValues s.assigned

theorem admissible_iff {s : Statement} :
    s.Admissible ↔ ∀ a ∈ s.applied, Description.Admissible a.1 a.2 := by
  cases s with
  | graphAttributes attributes place =>
    simp only [Admissible, ← mem_lastValues, Prod.forall]
    exact Iff.rfl
  | nodeDefaults | edgeDefaults | chain | node => simp [Admissible, applied, assigned, lastValues]

end Statement

section Drafts

variable {d d' : Draft}

/-- A statement sets direction and gaps as the settings that it makes say. -/
theorem setBy_act {s : Statement} (h : d.act s = .ok d') : SetBy d.graph s.applied d'.graph := by
  by_cases hs : s.SetsGraph
  · cases s with
    | graphAttributes attributes place =>
      simp only [Draft.act] at h
      split at h <;> cases h
      next g hg =>
      exact setBy_setAll hg
    | nodeDefaults | edgeDefaults | chain | node => cases hs
  · have hnone : s.applied = [] := by
      cases s with
      | graphAttributes attributes place => exact absurd trivial hs
      | nodeDefaults | edgeDefaults | chain | node => rfl
    rw [hnone]
    exact setBy_nil (spacing_of_act hs h)

theorem setBy_actFrom {finish : Position} {statements : List Statement}
    (h : actFrom finish d statements = .ok d') :
    SetBy d.graph (statements.flatMap Statement.applied) d'.graph := by
  induction statements generalizing d with
  | nil =>
    cases h
    exact setBy_nil rfl
  | cons s statements ih =>
    rw [actFrom_cons] at h
    split at h
    · next d₁ h₁ => exact (setBy_act h₁).trans (ih h)
    · cases h

end Drafts

theorem lastOf?_flatMap {statements : List Statement}
    (h : ∀ s ∈ statements, InOrder name s.assigned) :
    lastOf? name (statements.flatMap Statement.applied) =
      lastOf? name (statements.flatMap Statement.assigned) := by
  induction statements with
  | nil => rfl
  | cons s statements ih =>
    obtain ⟨hs, hrest⟩ := List.forall_mem_cons.mp h
    rw [List.flatMap_cons, List.flatMap_cons, lastOf?_append, lastOf?_append, ih hrest,
      Statement.applied, lastOf?_lastValues hs]

theorem SetBy.of_inOrder {statements : List Statement}
    (h : SetBy g (statements.flatMap Statement.applied) g₁)
    (horder : ∀ name, ∀ t ∈ statements, InOrder name t.assigned) :
    SetBy g (statements.flatMap Statement.assigned) g₁ := by
  refine ⟨?_, ?_, ?_⟩
  · exact lastOf?_flatMap (horder _) ▸ h.direction
  · exact lastOf?_flatMap (horder _) ▸ h.nodeGap
  · exact lastOf?_flatMap (horder _) ▸ h.rankGap

/-! ### Descriptions -/

/-- **The settings of a description.**  Direction and gaps of a graph that is read are what the last
settings of `rankdir`, `nodesep` and `ranksep` say of those that the statements make, and the
defaults where there is none.  They are the last in the order of the text if no attribute list has a
name in several spellings and one of them twice.  A sentence that makes a setting whose value is not
admissible is refused; and it makes every setting of a list that has no spelling twice. -/
theorem read_settings (text : String) :
    (∀ g, read text = .ok g → ∃ s title statements,
      scan text = .ok s ∧ Sentence s.tokens title statements ∧
      SetBy .empty (statements.flatMap Statement.applied) g ∧
      ((∀ name, ∀ t ∈ statements, InOrder name t.assigned) →
        SetBy .empty (statements.flatMap Statement.assigned) g)) ∧
    ∀ s title statements, scan text = .ok s → Sentence s.tokens title statements →
      ∀ t ∈ statements,
        ((∃ a ∈ t.applied, ¬ Admissible a.1 a.2) ∨
          (t.assigned.map (·.1)).Nodup ∧ ∃ a ∈ t.assigned, ¬ Admissible a.1 a.2) →
        ∃ fault, read text = .error fault := by
  constructor
  · intro g h
    obtain ⟨s, hs, hread⟩ := ok_of_bind_ok h
    obtain ⟨title, statements, d, hsentence, hd, -, -, rfl⟩ := ofTokens_sound hread
    obtain ⟨hdir, hnode, hrank⟩ := setBy_actFrom hd
    have hset : SetBy .empty (statements.flatMap Statement.applied) { d.graph with name := title } :=
      ⟨hdir, hnode, hrank⟩
    exact ⟨s, title, statements, hs, hsentence, hset, hset.of_inOrder⟩
  · intro s title statements hs hsentence t ht hbad
    obtain ⟨a, ha, hvalue⟩ : ∃ a ∈ t.applied, ¬ Admissible a.1 a.2 := by
      rcases hbad with hbad | ⟨hnodup, hbad⟩
      · exact hbad
      · rw [Statement.applied, lastValues_of_nodup hnodup]
        exact hbad
    cases hr : read text with
    | error fault => exact ⟨fault, rfl⟩
    | ok g =>
      obtain ⟨title', statements', hsentence', haccept⟩ := (read_accepts hs).1.mp ⟨g, hr⟩
      obtain ⟨-, rfl⟩ := hsentence.unique hsentence'
      exact absurd (Statement.admissible_iff.mp (haccept.admissible t ht) a ha) hvalue

/-- A list whose last setting of the direction does not come last in its map. -/
def respelledSample : String :=
  "digraph \x7b graph [rankdir=LR, RANKDIR=TB, rankdir=BT]; a \x7d"

/-- A list with a direction that there is not, which another of its spelling follows. -/
def overwrittenSample : String := "digraph \x7b graph [rankdir=sideways, rankdir=LR]; a \x7d"

/-- What a check of its script finds, a sentence has. -/
theorem exists_sentence (text : String) (check : List Statement → Bool)
    (h : (scan text).toOption.any fun s =>
      (readGraph s.tokens).refusal.isNone && check (readGraph s.tokens).statements) :
    ∃ s title statements, scan text = .ok s ∧ Sentence s.tokens title statements ∧
      check statements := by
  cases hs : scan text with
  | error fault =>
    rw [hs] at h
    cases h
  | ok s =>
    rw [hs] at h
    obtain ⟨hnone, hcheck⟩ := Bool.and_eq_true_iff.mp h
    exact ⟨s, _, _, rfl, readGraph_sound (Option.isNone_iff_eq_none.mp hnone), hcheck⟩

theorem read_settings_respelled :
    (∃ g s title statements, read respelledSample = .ok g ∧ scan respelledSample = .ok s ∧
      Sentence s.tokens title statements ∧
      ¬ SetBy .empty (statements.flatMap Statement.assigned) g) ∧
    ∃ s title statements, scan overwrittenSample = .ok s ∧ Sentence s.tokens title statements ∧
      (∃ t ∈ statements, ∃ a ∈ t.assigned, ¬ Admissible a.1 a.2) ∧
      ∃ g, read overwrittenSample = .ok g := by
  constructor
  · have hdir : (read respelledSample).toOption.map (·.direction) = some .topBottom := by
      decide +kernel
    obtain ⟨s, title, statements, hs, hsentence, hlast⟩ := exists_sentence respelledSample
      (fun ss => lastOf? "rankdir" (ss.flatMap Statement.assigned) == some "BT") (by decide +kernel)
    cases hg : read respelledSample with
    | error fault =>
      rw [hg] at hdir
      cases hdir
    | ok g =>
      rw [hg] at hdir
      refine ⟨g, s, title, statements, rfl, hs, hsentence, fun hset => ?_⟩
      have hname : Chosen NamesDirection .topBottom (some "BT") g.direction :=
        eq_of_beq hlast ▸ hset.direction
      have hupper : Text.upperAscii "BT" ≠ "TB" := by decide +kernel
      obtain ⟨-, hname⟩ : NamesDirection "BT" .topBottom := Option.some.inj hdir ▸ hname
      exact hupper hname.symm
  · obtain ⟨s, title, statements, hs, hsentence, hmem⟩ := exists_sentence overwrittenSample
      (fun ss => ss.any (·.assigned.contains ("rankdir", "sideways"))) (by decide +kernel)
    have hvalue : Text.upperAscii "sideways" ∉ ["TB", "BT", "LR", "RL"] := by decide +kernel
    obtain ⟨t, ht, ha⟩ := List.any_eq_true.mp hmem
    exact ⟨s, title, statements, hs, hsentence,
      ⟨t, ht, ("rankdir", "sideways"), by simpa using ha, fun h => hvalue (h.1 (by decide +kernel))⟩,
      exists_ok_of_isOk (by decide +kernel)⟩

end Scrawl.Description
