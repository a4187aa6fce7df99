import Scrawl.Proofs.Description.Drafts
import Scrawl.Proofs.Description.Keywords
import Scrawl.Proofs.Description.Syntax

/-!
# Scrawl.Proofs.Description.Acceptance — the descriptions that are read

Reading is the syntax (`Scrawl.Proofs.Description.Syntax`), then the statements in order
(`Scrawl.Proofs.Description.Drafts`), then the limits on the size.

* `ofTokens_sound`, `ofTokens_complete`: the graph that is read is the draft of a sentence.
* `ofTokens_size`: it has a node for every id that the sentence names and an edge for every hop.
* `read_accepts`: a text of tokens is read if and only if its tokens are a sentence with admissible
  attributes and not too many nodes and edges; else there is a fault.
-/

namespace Scrawl.Description

/-- What a sentence has to keep to beyond its grammar: the admissible values of graph attributes,
and the most nodes and edges. -/
structure Acceptable (statements : List Statement) : Prop where
  admissible : ∀ s ∈ statements, s.Admissible
  nodes : (statements.flatMap Statement.mentioned).toFinset.card ≤ 2000
  edges : (statements.flatMap Statement.joins).length ≤ 8000

section Tokens

variable {s : Scan} {name : Option String} {statements : List Statement}

/-- A graph that is read is the draft of a sentence. -/
theorem ofTokens_sound {g : Graph Float} (h : ofTokens s = .ok g) : ∃ name statements d,
    Sentence s.tokens name statements ∧ actFrom s.finish {} statements = .ok d ∧
      d.graph.nodes.length ≤ 2000 ∧ d.graph.edges.length ≤ 8000 ∧ g = { d.graph with name } := by
  obtain ⟨d, hd, h'⟩ := ok_of_bind_ok h
  split at h'
  · cases h'
  · next hr =>
    dsimp only at h'
    split_ifs at h' with hlarge
    cases h'
    simp only [Bool.or_eq_true, decide_eq_true_eq, not_or, Nat.not_lt] at hlarge
    exact ⟨_, _, d, readGraph_sound hr, hd, hlarge.1, hlarge.2, rfl⟩

/-- The draft of a sentence is read unless it is too large. -/
theorem ofTokens_complete {d : Draft} (hs : Sentence s.tokens name statements)
    (hd : actFrom s.finish {} statements = .ok d) (hn : d.graph.nodes.length ≤ 2000)
    (he : d.graph.edges.length ≤ 8000) : ofTokens s = .ok { d.graph with name } := by
  have hlarge : (decide (maxNodes < d.graph.nodes.length) ||
      decide (maxEdges < d.graph.edges.length)) = false := by
    rw [Bool.or_eq_false_iff, decide_eq_false_iff_not, decide_eq_false_iff_not]
    exact ⟨Nat.not_lt.mpr hn, Nat.not_lt.mpr he⟩
  have hact : actAll s.finish statements = .ok d := hd
  unfold ofTokens
  simp only [readGraph_complete hs, hact, ok_bind, hlarge, Bool.false_eq_true, if_false]
  rfl

/-- The graph of a sentence has one node for every id named and one edge for every hop. -/
theorem actFrom_size {finish : Position} {d : Draft} (h : actFrom finish {} statements = .ok d) :
    d.graph.nodes.length = (statements.flatMap Statement.mentioned).toFinset.card ∧
      d.graph.edges.length = (statements.flatMap Statement.joins).length := by
  obtain ⟨hids, hends⟩ := actFrom_graph finish h
  constructor
  · rw [← length_foldl_mention, ← List.length_map (·.id)]
    exact congrArg List.length hids
  · rw [← List.length_map fun e => (e.source, e.target)]
    exact congrArg List.length hends

theorem ofTokens_size {g : Graph Float} (hs : Sentence s.tokens name statements)
    (h : ofTokens s = .ok g) :
    g.nodes.length = (statements.flatMap Statement.mentioned).toFinset.card ∧
      g.edges.length = (statements.flatMap Statement.joins).length := by
  obtain ⟨_, _, d, hs', hd, -, -, rfl⟩ := ofTokens_sound h
  obtain ⟨-, rfl⟩ := hs.unique hs'
  exact actFrom_size hd

theorem ofTokens_ok_iff : (∃ g, ofTokens s = .ok g) ↔
    ∃ name statements, Sentence s.tokens name statements ∧ Acceptable statements := by
  constructor
  · rintro ⟨g, h⟩
    obtain ⟨name, statements, d, hs, hd, hn, he, -⟩ := ofTokens_sound h
    obtain ⟨hnodes, hedges⟩ := actFrom_size hd
    exact ⟨name, statements, hs, (actFrom_ok_iff _).mp ⟨d, hd⟩, hnodes ▸ hn, hedges ▸ he⟩
  · rintro ⟨name, statements, hs, hadm, hn, he⟩
    obtain ⟨d, hd⟩ := (actFrom_ok_iff (d := {}) s.finish).mpr hadm
    obtain ⟨hnodes, hedges⟩ := actFrom_size hd
    exact ⟨_, ofTokens_complete hs hd (hnodes ▸ hn) (hedges ▸ he)⟩

end Tokens

/-- **The descriptions that are read.**  A text that can be cut into tokens is read if and only if
its tokens are a sentence whose statements are acceptable; else it is refused with a fault.  What is
read has a node for every id that the sentence names and an edge for every hop.  The keywords of the
grammar are the tokens whose text is the word in some case, which no quoted text is. -/
theorem read_accepts {text : String} {s : Scan} (h : scan text = .ok s) :
    ((∃ g, read text = .ok g) ↔
      ∃ name statements, Sentence s.tokens name statements ∧ Acceptable statements) ∧
    ((¬ ∃ name statements, Sentence s.tokens name statements ∧ Acceptable statements) →
      ∃ fault, read text = .error fault) ∧
    (∀ name statements g, Sentence s.tokens name statements → read text = .ok g →
      g.nodes.length = (statements.flatMap Statement.mentioned).toFinset.card ∧
        g.edges.length = (statements.flatMap Statement.joins).length) ∧
    ∀ t ∈ s.tokens, ∀ k : Keyword,
      t.lexeme = .keyword k ↔ t.raw.map Char.toLower = k.word.toList := by
  have hread : read text = ofTokens s := by
    unfold read
    rw [h, ok_bind]
  rw [hread]
  refine ⟨ofTokens_ok_iff, fun hnot => ?_, fun _ _ _ => ofTokens_size,
    fun t ht => keyword_iff_of_scan h ht⟩
  cases hr : ofTokens s with
  | error fault => exact ⟨fault, rfl⟩
  | ok g => exact absurd (ofTokens_ok_iff.mp ⟨g, hr⟩) hnot

theorem exists_ok_of_isOk {ε β : Type} {x : Except ε β} (h : x.isOk) : ∃ b, x = .ok b := by
  cases x with
  | error e => cases h
  | ok b => exact ⟨b, rfl⟩

/-- A description with a chain, a number, a string and a list that ends in a separator. -/
def sample : String :=
  "DiGraph \x7b rankdir=lr; a -> 1 -> \"b c\" [color=red,]; graph [nodesep=2.5] \x7d"

theorem read_accepts_sample : ∃ s, scan sample = .ok s ∧
    ∃ name statements, Sentence s.tokens name statements ∧ Acceptable statements := by
  obtain ⟨s, hs⟩ : ∃ s, scan sample = .ok s := exists_ok_of_isOk (by decide +kernel)
  have hread : ∃ g, read sample = .ok g := exists_ok_of_isOk (by decide +kernel)
  exact ⟨s, hs, (read_accepts hs).1.mp hread⟩

end Scrawl.Description
