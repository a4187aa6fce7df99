import Scrawl.Random.Source
/-!
# Scrawl.Random.Twister — the Mersenne Twister

The generator MT19937: 624 words of state that are renewed all at once, and tempered one at a time.
It is seeded by a list of words, here the 32-bit words of the absolute value of an integer, and
gives numbers in `[0, 1)` with 53 bits from two words.
-/

namespace Scrawl.Random

/-- The number of words of state. -/
abbrev size : Nat := 624

/-- The state: its words and the number of those used up. -/
structure Twister where
  words : Vector UInt32 size
  used : Nat

namespace Twister

/-- The word at an index modulo the size. -/
def word (ws : Vector UInt32 size) (i : Nat) : UInt32 :=
  ws.get ⟨i % size, Nat.mod_lt _ (by decide)⟩

/-- Replaces the word at an index modulo the size. -/
def setWord (ws : Vector UInt32 size) (i : Nat) (w : UInt32) : Vector UInt32 size :=
  ws.set (i % size) w (Nat.mod_lt _ (by decide))

/-- Folds the high bits of a word into its low ones. -/
def folded (w : UInt32) : UInt32 := w ^^^ (w >>> 30)

/-- The words that grow from a single word. -/
def grow (seed : UInt32) : Vector UInt32 size :=
  (List.range' 1 (size - 1)).foldl
    (fun ws i => setWord ws i (1812433253 * folded (word ws (i - 1)) + UInt32.ofNat i))
    (Vector.replicate size seed)

/-- The index behind `i` in the rounds of seeding, and the words with the last one copied to the
front when a round is complete. -/
def advance (ws : Vector UInt32 size) (i : Nat) : Vector UInt32 size × Nat :=
  if i + 1 < size then (ws, i + 1) else (setWord ws 0 (word ws (size - 1)), 1)

/-- One step of mixing the `j`-th word `key` of a seed in. -/
def mixKey (state : Vector UInt32 size × Nat) (j : Nat) (key : UInt32) : Vector UInt32 size × Nat :=
  let (ws, i) := state
  let w := (word ws i ^^^ (folded (word ws (i - 1)) * 1664525)) + key + UInt32.ofNat j
  advance (setWord ws i w) i

/-- One step of the second round of seeding. -/
def mixIndex (state : Vector UInt32 size × Nat) : Vector UInt32 size × Nat :=
  let (ws, i) := state
  let w := (word ws i ^^^ (folded (word ws (i - 1)) * 1566083941)) - UInt32.ofNat i
  advance (setWord ws i w) i

/-- The generator seeded by a list of words; an empty list counts as the single word zero. -/
def ofWords (keys : List UInt32) : Twister :=
  let keys := if keys.isEmpty then [0] else keys
  let start := (grow 19650218, 1)
  let mixed := (List.range (max size keys.length)).foldl
    (fun state k => mixKey state (k % keys.length) (keys.getD (k % keys.length) 0)) start
  let mixed := (List.range (size - 1)).foldl (fun state _ => mixIndex state) mixed
  ⟨setWord mixed.1 0 0x80000000, size⟩

/-- The 32-bit words of a number, the lowest first. -/
def wordsOf (n : Nat) : List UInt32 :=
  if n < 4294967296 then [UInt32.ofNat n]
  else UInt32.ofNat (n % 4294967296) :: wordsOf (n / 4294967296)
termination_by n
decreasing_by omega

/-- The generator of a seed. -/
def ofSeed (seed : Int) : Twister := ofWords (wordsOf seed.natAbs)

/-- Renews all words. -/
def renew (ws : Vector UInt32 size) : Vector UInt32 size :=
  (List.range size).foldl (fun ws i =>
    let y := (word ws i &&& 0x80000000) ||| (word ws (i + 1) &&& 0x7fffffff)
    let twist : UInt32 := if y &&& 1 == 1 then 0x9908b0df else 0
    setWord ws i (word ws (i + 397) ^^^ (y >>> 1) ^^^ twist)) ws

/-- Tempers a word. -/
def temper (y : UInt32) : UInt32 :=
  let y := y ^^^ (y >>> 11)
  let y := y ^^^ ((y <<< 7) &&& 0x9d2c5680)
  let y := y ^^^ ((y <<< 15) &&& 0xefc60000)
  y ^^^ (y >>> 18)

/-- The next word. -/
def next (t : Twister) : UInt32 × Twister :=
  let t := if t.used < size then t else ⟨renew t.words, 0⟩
  (temper (word t.words t.used), { t with used := t.used + 1 })

/-- The next number in `[0, 1)`: 27 bits of one word above 26 bits of the next. -/
def draw (t : Twister) : Float × Twister :=
  let (a, t) := t.next
  let (b, t) := t.next
  let n := (a >>> 5).toNat * 67108864 + (b >>> 6).toNat
  (n.toFloat / 9007199254740992.0, t)

/-- A number is made of 53 bits. -/
theorem highBits_lt (a b : UInt32) :
    (a >>> 5).toNat * 67108864 + (b >>> 6).toNat < 9007199254740992 := by
  have ha := a.toNat_lt
  have hb := b.toNat_lt
  have hhigh : (a >>> 5).toNat = a.toNat / 32 := by
    rw [UInt32.toNat_shiftRight, Nat.shiftRight_eq_div_pow]
    rfl
  have hlow : (b >>> 6).toNat = b.toNat / 64 := by
    rw [UInt32.toNat_shiftRight, Nat.shiftRight_eq_div_pow]
    rfl
  omega

instance : Source Twister Float := ⟨draw⟩

end Twister

end Scrawl.Random
