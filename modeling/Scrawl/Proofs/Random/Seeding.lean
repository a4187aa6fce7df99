import Scrawl.Proofs.Stroke.Draws
import Scrawl.Random.Twister

/-!
# Scrawl.Proofs.Random.Seeding — the first numbers of a seed

The generator is seeded in passes over its words, each of which makes a word of the one before it
and of what it was.  As lists the words of a pass are a chain, which can be computed from its start.
The first words that the generator gives are made of three words of its state each.

* `toList_pass`: a pass over the words.
* `toList_ofWords`: the words of the state for a seed of one word.
* `nth_ofSeed`: the first numbers of such a seed.
-/

namespace Scrawl.Random.Twister

open Source

variable {ws : Vector UInt32 size}

/-! ### Single words -/

section Words

variable {i j : ℕ} (hi : i < size) (hj : j < size)

include hi in
theorem toList_setWord (ws : Vector UInt32 size) (w : UInt32) :
    (setWord ws i w).toList = ws.toList.set i w := by
  simp only [setWord, Nat.mod_eq_of_lt hi, Vector.toList_set]

include hi in
theorem getElem?_toList (ws : Vector UInt32 size) : ws.toList[i]? = some (word ws i) := by
  simp only [word, Nat.mod_eq_of_lt hi]
  simp [Vector.get, hi]

include hi in
theorem word_eq_getD (ws : Vector UInt32 size) : word ws i = ws.toList.getD i 0 := by
  rw [List.getD_eq_getElem?_getD, getElem?_toList hi]
  rfl

include hi hj in
theorem word_setWord_of_ne (h : i ≠ j) (ws : Vector UInt32 size) (w : UInt32) :
    word (setWord ws i w) j = word ws j := by
  rw [word_eq_getD hj, word_eq_getD hj, toList_setWord hi, List.getD_eq_getElem?_getD,
    List.getD_eq_getElem?_getD, List.getElem?_set_ne h]

include hi in
theorem word_setWord_self (ws : Vector UInt32 size) (w : UInt32) :
    word (setWord ws i w) i = w := by
  rw [word_eq_getD hi, toList_setWord hi, List.getD_eq_getElem?_getD,
    List.getElem?_set_self (by simpa using hi)]
  rfl

end Words

/-! ### Passes -/

section Passes

/-- The words from `a` at an index on, each made of the one before it, its index and what it was. -/
def chain (mix : UInt32 → ℕ → UInt32 → UInt32) : ℕ → UInt32 → List UInt32 → List UInt32
  | _, a, [] => [a]
  | i, a, b :: rest => a :: chain mix (i + 1) (mix a (i + 1) b) rest

variable (mix : UInt32 → ℕ → UInt32 → UInt32)

theorem length_chain (i : ℕ) (a : UInt32) (rest : List UInt32) :
    (chain mix i a rest).length = rest.length + 1 := by
  induction rest generalizing i a with
  | nil => rfl
  | cons b rest ih => rw [chain, List.length_cons, ih, List.length_cons]

/-- Makes a word of the one before it and of what it was. -/
def mixAt (ws : Vector UInt32 size) (i : ℕ) : Vector UInt32 size :=
  setWord ws i (mix (word ws (i - 1)) i (word ws i))

theorem length_behind {before rest : List UInt32} {a b : UInt32}
    (h : ws.toList = before ++ a :: b :: rest) : before.length + 2 + rest.length = size := by
  have hsize := congrArg List.length h
  simp only [Vector.length_toList, List.length_append, List.length_cons] at hsize
  omega

theorem toList_mixAt {before rest : List UInt32} {a b : UInt32}
    (h : ws.toList = before ++ a :: b :: rest) :
    (mixAt mix ws (before.length + 1)).toList =
      before ++ a :: mix a (before.length + 1) b :: rest := by
  have hlength := length_behind h
  rw [mixAt, toList_setWord (by omega), Nat.add_sub_cancel, word_eq_getD (by omega),
    word_eq_getD (by omega), h]
  simp [List.getD_eq_getElem?_getD]

theorem toList_mixAt_one {rest : List UInt32} {a b : UInt32} (h : ws.toList = a :: b :: rest) :
    (mixAt mix ws 1).toList = a :: mix a 1 b :: rest := by
  rw [← List.nil_append (a :: _)] at h
  exact toList_mixAt mix h

/-- **A pass over the words** makes a chain of them. -/
theorem toList_pass {before rest : List UInt32} {a : UInt32}
    (h : ws.toList = before ++ a :: rest) :
    ((List.range' (before.length + 1) rest.length).foldl (mixAt mix) ws).toList =
      before ++ chain mix before.length a rest := by
  induction rest generalizing ws before a with
  | nil => exact h
  | cons b rest ih =>
    have hstep := toList_mixAt mix h
    have hsplit : (mixAt mix ws (before.length + 1)).toList =
        (before ++ [a]) ++ mix a (before.length + 1) b :: rest := by
      rw [hstep, List.append_assoc]
      rfl
    have hnext := ih hsplit
    rw [List.length_append, List.length_singleton, List.append_assoc] at hnext
    exact hnext

/-- One step of a round of seeding: a word is made, and the round goes on or ends. -/
def turn (state : Vector UInt32 size × ℕ) : Vector UInt32 size × ℕ :=
  advance (mixAt mix state.1 state.2) state.2

theorem turn_of_lt {i : ℕ} (h : i + 1 < size) : turn mix (ws, i) = (mixAt mix ws i, i + 1) :=
  if_pos h

theorem iterate_turn {i n : ℕ} (h : i + n < size) :
    (turn mix)^[n] (ws, i) = ((List.range' i n).foldl (mixAt mix) ws, i + n) := by
  induction n generalizing ws i with
  | zero => rfl
  | succ n ih =>
    rw [Function.iterate_succ_apply, turn_of_lt mix (by omega), ih (by omega), List.range'_succ,
      List.foldl_cons, Nat.add_right_comm, Nat.add_assoc]

/-- **A round to the last word** copies it to the front. -/
theorem iterate_turn_round {before rest : List UInt32} {a : UInt32} (hrest : rest ≠ [])
    (h : ws.toList = before ++ a :: rest) :
    ∃ ws', (turn mix)^[rest.length] (ws, before.length + 1) = (ws', 1) ∧
      ws'.toList = (before ++ chain mix before.length a rest).getD (size - 1) 0 ::
        (before ++ chain mix before.length a rest).tail := by
  obtain ⟨b, rest, rfl⟩ := List.exists_cons_of_ne_nil hrest
  have hlength := length_behind h
  have hpass := toList_pass mix h
  rw [List.length_cons, List.range'_concat, List.foldl_append, Nat.one_mul] at hpass
  set most := (List.range' (before.length + 1) rest.length).foldl (mixAt mix) ws
  set all := mixAt mix most (before.length + 1 + rest.length) with hall
  refine ⟨setWord all 0 (word all (size - 1)), ?_, ?_⟩
  · rw [List.length_cons, Function.iterate_succ_apply', iterate_turn mix (by omega), turn, advance]
    exact if_neg (by dsimp only; omega)
  · have hall : all.toList = before ++ chain mix before.length a (b :: rest) := hpass
    rw [toList_setWord (by decide), word_eq_getD (by decide), hall]
    obtain ⟨c, cs, hcs⟩ := List.exists_cons_of_ne_nil
      (show before ++ chain mix before.length a (b :: rest) ≠ [] by simp [chain])
    rw [hcs]
    rfl

end Passes

/-! ### Seeds of one word -/

section Seeds

/-- How words grow from a single one. -/
def growing (a : UInt32) (i : ℕ) (_ : UInt32) : UInt32 :=
  1812433253 * folded a + UInt32.ofNat i

/-- How the first word of a seed is mixed in. -/
def keying (key a : UInt32) (_ : ℕ) (b : UInt32) : UInt32 :=
  (b ^^^ (folded a * 1664525)) + key + UInt32.ofNat 0

/-- How indices are mixed in. -/
def indexing (a : UInt32) (i : ℕ) (b : UInt32) : UInt32 :=
  (b ^^^ (folded a * 1566083941)) - UInt32.ofNat i

/-- The words that every seed starts from. -/
def grown : List UInt32 := chain growing 0 19650218 (List.replicate (size - 1) 19650218)

/-- The words after the round that mixes the seed in. -/
def keyed (key : UInt32) : List UInt32 := chain (keying key) 0 19650218 grown.tail

/-- The words after the second round, from the second one on. -/
def seeded (key : UInt32) : List UInt32 :=
  chain indexing 1 (keying key ((keyed key).getD (size - 1) 0) 1 ((keyed key).getD 1 0))
    ((keyed key).drop 2)

theorem chain_eq_cons (mix : UInt32 → ℕ → UInt32 → UInt32) (i : ℕ) (a : UInt32)
    (rest : List UInt32) : chain mix i a rest = a :: (chain mix i a rest).tail := by
  cases rest <;> rfl

theorem length_keyed (key : UInt32) : (keyed key).length = size := by
  rw [keyed, length_chain, List.length_tail, grown, length_chain, List.length_replicate]
  rfl

theorem toList_grow : (grow 19650218).toList = [] ++ 19650218 :: grown.tail := by
  rw [List.nil_append, grown, ← chain_eq_cons]
  have hstart : (Vector.replicate size (19650218 : UInt32)).toList =
      [] ++ 19650218 :: List.replicate (size - 1) 19650218 := by
    rw [Vector.toList_replicate]
    rfl
  have hpass := toList_pass growing hstart
  rw [List.length_replicate] at hpass
  exact hpass

/-- Both rounds of seeding. -/
theorem ofWords_eq (key : UInt32) : ofWords [key] =
    ⟨setWord ((turn indexing)^[size - 1] ((turn (keying key))^[size] (grow 19650218, 1))).1 0
      0x80000000, size⟩ := by
  have hkeys : (fun state k => mixKey state (k % [key].length) ([key].getD (k % [key].length) 0)) =
      fun state (_ : ℕ) => turn (keying key) state := by
    funext state k
    rw [List.length_singleton, Nat.mod_one]
    rfl
  have hkeyed : (List.range (max size [key].length)).foldl (fun state k =>
      mixKey state (k % [key].length) ([key].getD (k % [key].length) 0)) (grow 19650218, 1) =
      (turn (keying key))^[size] (grow 19650218, 1) := by
    rw [hkeys, List.foldl_const, List.length_range]
    rfl
  have hindexed : ∀ state, (List.range (size - 1)).foldl (fun state _ => mixIndex state) state =
      (turn indexing)^[size - 1] state := by
    intro state
    rw [show (fun state (_ : ℕ) => mixIndex state) = fun state _ => turn indexing state from rfl,
      List.foldl_const, List.length_range]
  rw [← hkeyed, ← hindexed]
  rfl

/-- **The state of a seed of one word.** -/
theorem toList_ofWords (key : UInt32) :
    ∃ w, (ofWords [key]).words.toList = 0x80000000 :: w :: (seeded key).tail := by
  have hgrown : grown.tail.length = 623 := by
    rw [List.length_tail, grown, length_chain, List.length_replicate]
    rfl
  have hkeyed := length_keyed key
  obtain ⟨a, b, rest, hrest⟩ : ∃ a b rest, keyed key = a :: b :: rest := by
    match keyed key, hkeyed with
    | a :: b :: rest, _ => exact ⟨a, b, rest, rfl⟩
  have hcount : rest.length = 622 := by
    rw [hrest, List.length_cons, List.length_cons] at hkeyed
    exact Nat.succ.inj (Nat.succ.inj hkeyed)
  -- the first round goes through all words and then makes the second one again
  obtain ⟨ws₁, hround₁, hws₁⟩ := iterate_turn_round (keying key)
    (List.ne_nil_of_length_pos (by omega)) toList_grow
  rw [hgrown, List.length_nil, Nat.zero_add] at hround₁
  rw [List.nil_append, List.length_nil, ← keyed, hrest, List.tail_cons] at hws₁
  have hws₂ := toList_mixAt_one (keying key) hws₁
  rw [← List.singleton_append] at hws₂
  have hrun₁ : (turn (keying key))^[size] (grow 19650218, 1) = (mixAt (keying key) ws₁ 1, 2) := by
    refine (Function.iterate_succ_apply' _ 623 _).trans ?_
    rw [hround₁]
    exact turn_of_lt _ (by decide)
  -- so does the second round, which starts there
  obtain ⟨ws₃, hround₂, hws₃⟩ := iterate_turn_round indexing
    (List.ne_nil_of_length_pos (by omega)) hws₂
  rw [hcount, List.length_singleton] at hround₂
  have hseeded : chain indexing 1 (keying key ((a :: b :: rest).getD (size - 1) 0) 1 b) rest =
      seeded key := by
    rw [seeded, hrest]
    rfl
  have hhead := chain_eq_cons indexing 1
    (keying key ((a :: b :: rest).getD (size - 1) 0) 1 b) rest
  rw [hseeded] at hhead
  rw [List.length_singleton, hseeded, List.singleton_append, List.tail_cons, hhead] at hws₃
  have hws₄ := toList_mixAt_one indexing hws₃
  have hrun₂ : (turn indexing)^[size - 1] (mixAt (keying key) ws₁ 1, 2) =
      (mixAt indexing ws₃ 1, 2) := by
    refine (Function.iterate_succ_apply' _ 622 _).trans ?_
    rw [hround₂]
    exact turn_of_lt _ (by decide)
  rw [ofWords_eq, hrun₁, hrun₂]
  dsimp only
  rw [toList_setWord (by decide), hws₄]
  exact ⟨_, rfl⟩

end Seeds

/-! ### The first numbers -/

section Numbers

/-- The word that is made of a word, the one behind it and the one 397 places on. -/
def renewed (a b c : UInt32) : UInt32 :=
  let y := (a &&& 0x80000000) ||| (b &&& 0x7fffffff)
  let twist : UInt32 := if y &&& 1 == 1 then 0x9908b0df else 0
  c ^^^ (y >>> 1) ^^^ twist

/-- One step of the renewal. -/
def renewAt (ws : Vector UInt32 size) (i : ℕ) : Vector UInt32 size :=
  setWord ws i (renewed (word ws i) (word ws (i + 1)) (word ws (i + 397)))

theorem word_foldl_renewAt {j : ℕ} (hj : j < size) (indices : List ℕ)
    (h : ∀ i ∈ indices, i < size ∧ i ≠ j) (ws : Vector UInt32 size) :
    word (indices.foldl renewAt ws) j = word ws j := by
  induction indices generalizing ws with
  | nil => rfl
  | cons i indices ih =>
    obtain ⟨hi, hne⟩ := h i List.mem_cons_self
    rw [List.foldl_cons, ih (fun k hk => h k (List.mem_cons_of_mem i hk)), renewAt,
      word_setWord_of_ne hi hj hne]

/-- **A word of the first part of the renewed state** is made of three words of the old one. -/
theorem word_renew {j : ℕ} (hj : j < 227) (ws : Vector UInt32 size) :
    word (renew ws) j = renewed (word ws j) (word ws (j + 1)) (word ws (j + 397)) := by
  have hsize : size = 624 := rfl
  have hsplit : List.range size = List.range j ++ j :: List.range' (j + 1) (size - j - 1) := by
    have happend : List.range' 0 j ++ List.range' (0 + j) (size - j - 1 + 1) =
      List.range' 0 (j + (size - j - 1 + 1)) := List.range'_append_1
    rw [Nat.zero_add, show j + (size - j - 1 + 1) = size by omega, List.range'_succ] at happend
    rw [List.range_eq_range', List.range_eq_range', happend]
  have hbefore : ∀ {k : ℕ}, k < size → j ≤ k →
      word ((List.range j).foldl renewAt ws) k = word ws k := by
    intro k hk hjk
    refine word_foldl_renewAt hk _ (fun i hi => ?_) ws
    have hi := List.mem_range.mp hi
    omega
  have hrenew : renew ws = (List.range size).foldl renewAt ws := rfl
  rw [hrenew, hsplit, List.foldl_append, List.foldl_cons, word_foldl_renewAt (by omega), renewAt,
    word_setWord_self (by omega), hbefore (by omega) le_rfl, hbefore (by omega) (by omega),
    hbefore (by omega) (by omega)]
  intro i hi
  have hi := List.mem_range'_1.mp hi
  omega

/-- The number that two words make. -/
def numberOf (a b : UInt32) : Float :=
  ((a >>> 5).toNat * 67108864 + (b >>> 6).toNat).toFloat / 9007199254740992.0

theorem next_of_lt {i : ℕ} (h : i < size) (ws : Vector UInt32 size) :
    next ⟨ws, i⟩ = (temper (word ws i), ⟨ws, i + 1⟩) := by
  simp only [next, if_pos h]

theorem draw_of_lt {i : ℕ} (h : i + 1 < size) (ws : Vector UInt32 size) :
    (Source.draw (⟨ws, i⟩ : Twister) : Float × Twister) =
      (numberOf (temper (word ws i)) (temper (word ws (i + 1))), ⟨ws, i + 2⟩) := by
  change Twister.draw ⟨ws, i⟩ = _
  simp only [Twister.draw, next_of_lt h, next_of_lt (Nat.lt_of_succ_lt h), numberOf]

/-- The numbers that a state has left. -/
theorem nth_of_used {i k : ℕ} (h : i + 2 * k + 1 < size) (ws : Vector UInt32 size) :
    (nth k (⟨ws, i⟩ : Twister) : Float) =
      numberOf (temper (word ws (i + 2 * k))) (temper (word ws (i + 2 * k + 1))) := by
  induction k generalizing i with
  | zero => exact congrArg Prod.fst (draw_of_lt (by omega) ws)
  | succ k ih =>
    have hnext := ih (i := i + 2) (by omega)
    rw [show i + 2 + 2 * k = i + 2 * (k + 1) by omega] at hnext
    rw [nth_succ, draw_of_lt (by omega), hnext]

/-- All words are renewed before the first number of a seed. -/
theorem nth_of_size (k : ℕ) (ws : Vector UInt32 size) :
    (nth k (⟨ws, size⟩ : Twister) : Float) = nth k (⟨renew ws, 0⟩ : Twister) := by
  have hnext : next ⟨ws, size⟩ = next ⟨renew ws, 0⟩ := by
    simp only [next, lt_irrefl, if_false, if_pos (show 0 < size by decide)]
  have hdraw : (Source.draw (⟨ws, size⟩ : Twister) : Float × Twister) =
      Source.draw (⟨renew ws, 0⟩ : Twister) := by
    change Twister.draw ⟨ws, size⟩ = Twister.draw ⟨renew ws, 0⟩
    rw [Twister.draw, Twister.draw, hnext]
  cases k with
  | zero => exact congrArg Prod.fst hdraw
  | succ k => rw [nth_succ, nth_succ, hdraw]

/-- A word that a seed of one word gives, of the first part of the renewed state. -/
def output (key : UInt32) (j : ℕ) : UInt32 :=
  let ws := seeded key
  temper (renewed (ws.getD (j - 1) 0) (ws.getD j 0) (ws.getD (j + 396) 0))

/-- **The first numbers of a seed**, but for the very first. -/
theorem nth_ofSeed {seed : ℕ} (hseed : seed < 4294967296) {k : ℕ} (hk : 0 < k) (hk' : k < 113) :
    (nth k (ofSeed seed) : Float) =
      numberOf (output (UInt32.ofNat seed) (2 * k)) (output (UInt32.ofNat seed) (2 * k + 1)) := by
  have hsize : size = 624 := rfl
  have hstate : ofSeed seed = ⟨(ofWords [UInt32.ofNat seed]).words, size⟩ := by
    rw [ofSeed, Int.natAbs_natCast, wordsOf, if_pos hseed]
    rfl
  obtain ⟨w, hw⟩ := toList_ofWords (UInt32.ofNat seed)
  have hword : ∀ {j : ℕ}, 2 ≤ j → j < size →
      word (ofWords [UInt32.ofNat seed]).words j = (seeded (UInt32.ofNat seed)).getD (j - 1) 0 := by
    intro j hj hj'
    obtain ⟨i, rfl⟩ := Nat.exists_eq_add_of_le' hj
    rw [word_eq_getD hj', hw, seeded, chain_eq_cons]
    rfl
  have houtput : ∀ {j : ℕ}, 2 ≤ j → j < 227 →
      temper (word (renew (ofWords [UInt32.ofNat seed]).words) j) =
        output (UInt32.ofNat seed) j := by
    intro j hj hj'
    rw [word_renew hj', hword hj (by omega), hword (by omega) (by omega),
      hword (by omega) (by omega)]
    rfl
  rw [hstate, nth_of_size, nth_of_used (by omega), Nat.zero_add, houtput (by omega) (by omega),
    houtput (by omega) (by omega)]

end Numbers

end Scrawl.Random.Twister
