import Scrawl.Description.Statement

/-!
# Scrawl.Proofs.Description.Grammar — the sentences of the description language

Every nonterminal is a relation between tokens and what they say.

    graph := [strict] digraph [ID] `{` [stmt (`;` stmt)* [`;`]] `}`
    stmt  := ID `=` ID | ID (`->` ID)+ [attrs] | ID [attrs] | (graph | node | edge) attrs
    attrs := `[` [ID `=` ID (sep ID `=` ID)* [sep]] `]`        sep := `,` | `;`

`Maybe`, `Series` and `Body` are the bracket, the repetition with a separator, and the repetition
that may be missing and may end in a separator.  The grammar has no reader in it; that the readers
accept its sentences and no others is shown in `Scrawl.Proofs.Description.Syntax`.
-/

namespace Scrawl.Description

/-! ### Forms of rules -/

section Forms

variable {β : Type} (sep : Token → Prop) (item : List Token → β → Prop)

/-- `[X]`. -/
inductive Maybe : List Token → Option β → Prop
  | none : Maybe [] none
  | some {ts : List Token} {b : β} (h : item ts b) : Maybe ts (some b)

/-- `X (sep X)*`. -/
inductive Series : List Token → List β → Prop
  | one {ts : List Token} {b : β} (h : item ts b) : Series ts [b]
  | more {ts us : List Token} {b : β} {bs : List β} {t : Token} (h : item ts b) (hs : sep t)
      (hr : Series us bs) : Series (ts ++ t :: us) (b :: bs)

/-- `[X (sep X)* [sep]]`. -/
inductive Body : List Token → List β → Prop
  | empty : Body [] []
  | plain {ts : List Token} {bs : List β} (h : Series sep item ts bs) : Body ts bs
  | ended {ts : List Token} {bs : List β} {t : Token} (h : Series sep item ts bs) (hs : sep t) :
      Body (ts ++ [t]) bs

variable {sep item}

/-- An item and a separator may stand in front. -/
theorem Body.cons {ts us : List Token} {b : β} {bs : List β} {t : Token} (h : item ts b)
    (hs : sep t) (hb : Body sep item us bs) : Body sep item (ts ++ t :: us) (b :: bs) := by
  cases hb with
  | empty => exact .ended (.one h) hs
  | plain hr => exact .plain (.more h hs hr)
  | @ended vs _ u hr hs' =>
    rw [show ts ++ t :: (vs ++ [u]) = (ts ++ t :: vs) ++ [u] by simp]
    exact .ended (.more h hs hr) hs'

/-- A body is empty, an item, or an item with a separator and a body behind. -/
@[elab_as_elim]
theorem Body.induct {motive : ∀ ts bs, Body sep item ts bs → Prop} (empty : motive [] [] .empty)
    (last : ∀ {ts b} (h : item ts b), motive ts [b] (.plain (.one h)))
    (cons : ∀ {ts us b bs t} (h : item ts b) (hs : sep t) (hb : Body sep item us bs),
      motive us bs hb → motive (ts ++ t :: us) (b :: bs) (.cons h hs hb))
    {ts : List Token} {bs : List β} (h : Body sep item ts bs) : motive ts bs h := by
  cases h with
  | empty => exact empty
  | plain h =>
    induction h with
    | one h => exact last h
    | more h hs hr ih => exact cons h hs (.plain hr) ih
  | ended h hs =>
    induction h with
    | one h => exact cons h hs .empty empty
    | @more ts us b bs t h hs' hr ih =>
      have hm := cons h hs' (.ended hr hs) ih
      simpa only [List.append_assoc, List.cons_append] using hm

end Forms

/-! ### Terminals -/

@[simp] theorem isMark_iff {t : Token} {m : Mark} : t.isMark m = true ↔ t.lexeme = .mark m := by
  simp [Token.isMark]

/-- `ID`: a name, a number or a quoted string. -/
inductive Id : List Token → String → Prop
  | mk {t : Token} {id : String} (h : t.id? = some id) : Id [t] id

/-- A keyword. -/
inductive Word (k : Keyword) : List Token → Unit → Prop
  | mk {t : Token} (h : t.lexeme = .keyword k) : Word k [t] ()

/-- The mark between statements. -/
def IsTerminator (t : Token) : Prop := t.isMark .semicolon

/-- A mark between attributes. -/
def IsSeparator (t : Token) : Prop := t.isMark .comma ∨ t.isMark .semicolon

/-! ### The rules -/

/-- `ID = ID`. -/
inductive Pair : List Token → String × String → Prop
  | mk {k e v : Token} {key value : String} (hk : k.id? = some key) (he : e.isMark .equals)
      (hv : v.id? = some value) : Pair [k, e, v] (key, value)

/-- `attrs`. -/
inductive AttributeList : List Token → Attributes → Prop
  | mk {o c : Token} {ts : List Token} {as : Attributes} (ho : o.isMark .openBracket)
      (hb : Body IsSeparator Pair ts as) (hc : c.isMark .closeBracket) :
      AttributeList (o :: (ts ++ [c])) as

/-- Arrows with the ids that they lead to. -/
inductive Targets : List Token → List String → Prop
  | nil : Targets [] []
  | cons {a v : Token} {ts : List Token} {id : String} {ids : List String}
      (ha : a.lexeme = .arrow) (hv : v.id? = some id) (h : Targets ts ids) :
      Targets (a :: v :: ts) (id :: ids)

/-- `stmt`. -/
inductive StatementOf : List Token → Statement → Prop
  | assignment {k e v : Token} {key value : String} (h : Pair [k, e, v] (key, value)) :
      StatementOf [k, e, v] (.graphAttributes [(key, value)] v)
  | chain {f : Token} {ts us : List Token} {first : String} {ids : List String}
      {as : Option Attributes} (hf : f.id? = some first) (ht : Targets ts ids) (hne : ids ≠ [])
      (ha : Maybe AttributeList us as) : StatementOf (f :: (ts ++ us)) (.chain first ids)
  | node {f : Token} {us : List Token} {id : String} {as : Option Attributes}
      (hf : f.id? = some id) (ha : Maybe AttributeList us as) :
      StatementOf (f :: us) (.node id (as.getD []))
  | graph {t : Token} {us : List Token} {as : Attributes} (ht : t.lexeme = .keyword .graph)
      (ha : AttributeList us as) : StatementOf (t :: us) (.graphAttributes as t)
  | nodeDefaults {t : Token} {us : List Token} {as : Attributes} (ht : t.lexeme = .keyword .node)
      (ha : AttributeList us as) : StatementOf (t :: us) (.nodeDefaults as)
  | edgeDefaults {t : Token} {us : List Token} {as : Attributes} (ht : t.lexeme = .keyword .edge)
      (ha : AttributeList us as) : StatementOf (t :: us) (.edgeDefaults as)

/-- `graph`: a whole token list, with the name and the statements of the graph. -/
inductive Sentence : List Token → Option String → List Statement → Prop
  | mk {ss ns ts : List Token} {d o c : Token} {strict : Option Unit} {name : Option String}
      {statements : List Statement} (hs : Maybe (Word .strict) ss strict)
      (hd : d.lexeme = .keyword .digraph) (hn : Maybe Id ns name) (ho : o.isMark .openBrace)
      (hb : Body IsTerminator StatementOf ts statements) (hc : c.isMark .closeBrace) :
      Sentence (ss ++ d :: (ns ++ o :: (ts ++ [c]))) name statements

end Scrawl.Description
