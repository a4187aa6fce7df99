import Mathlib.Data.Nat.Notation
import Mathlib.Tactic.ByContra
import Mathlib.Tactic.SplitIfs
import Scrawl.Text.Utf8

/-!
# Scrawl.Proofs.Text.Utf8 — texts and their bytes

Bytes are read as a text exactly if they are those that the text is written as.

* `Spelled`: the bytes of a character, as a table of their ranges.
* `leads_start`: what a first byte says about those behind it.
* `decode_eq_ok_iff`: reading is the inverse of writing.
-/

namespace Scrawl.Text.Utf8

/-! ### Bytes of a character -/

/-- A byte behind the first one of a character. -/
def IsTail (b : UInt8) : Prop := 0x80 ≤ b.toNat ∧ b.toNat ≤ 0xBF

/-- The bytes of a character and its number.  The shortest spelling counts, and the numbers of
surrogates are those of no character. -/
inductive Spelled : List UInt8 → ℕ → Prop
  | one {a : UInt8} : a.toNat ≤ 0x7F → Spelled [a] a.toNat
  | two {a b : UInt8} {n : ℕ} : 0xC2 ≤ a.toNat ∧ a.toNat ≤ 0xDF → IsTail b →
      n = (a.toNat - 0xC0) * 64 + (b.toNat - 0x80) → Spelled [a, b] n
  | three {a b c : UInt8} {w n : ℕ} : 0xE0 ≤ a.toNat ∧ a.toNat ≤ 0xEF → IsTail b → IsTail c →
      w = (a.toNat - 0xE0) * 64 + (b.toNat - 0x80) → 0x20 ≤ w ∧ (w < 0x360 ∨ 0x380 ≤ w) →
      n = w * 64 + (c.toNat - 0x80) → Spelled [a, b, c] n
  | four {a b c d : UInt8} {w n : ℕ} : 0xF0 ≤ a.toNat ∧ a.toNat ≤ 0xF4 → IsTail b → IsTail c →
      IsTail d → w = (a.toNat - 0xF0) * 64 + (b.toNat - 0x80) → 0x10 ≤ w ∧ w < 0x110 →
      n = (w * 64 + (c.toNat - 0x80)) * 64 + (d.toNat - 0x80) → Spelled [a, b, c, d] n

theorem Spelled.isValidChar {bytes : List UInt8} {n : ℕ} (h : Spelled bytes n) :
    n.isValidChar := by
  rw [Nat.isValidChar]
  cases h with
  | one ha => omega
  | two ha hb hn =>
    unfold IsTail at hb
    omega
  | three ha hb hc hw hrange hn =>
    unfold IsTail at hb hc
    omega
  | four ha hb hc hd hw hrange hn =>
    unfold IsTail at hc hd
    omega

theorem ofNat_eq {b : UInt8} {n : ℕ} (h : b.toNat = n) : UInt8.ofNat n = b := by
  rw [← h, UInt8.ofNat_toNat]

/-- The bytes of a number are those of its character. -/
theorem Spelled.encode {bytes : List UInt8} {n : ℕ} (h : Spelled bytes n) :
    String.utf8EncodeChar (Char.ofNat n) = bytes := by
  have hn : (Char.ofNat n).val.toNat = n := by
    rw [Char.ofNat, dif_pos h.isValidChar]
    rfl
  rw [String.utf8EncodeChar, hn]
  clear hn
  cases h with
  | one ha => rw [if_pos ha, UInt8.ofNat_toNat]
  | @two a b _ ha hb hn =>
    unfold IsTail at hb
    rw [if_neg (by omega), if_pos (by omega)]
    rw [ofNat_eq (b := a) (by omega), ofNat_eq (b := b) (by omega)]
  | @three a b c w _ ha hb hc hw hrange hn =>
    unfold IsTail at hb hc
    rw [if_neg (by omega), if_neg (by omega), if_pos (by omega)]
    rw [ofNat_eq (b := a) (by omega), ofNat_eq (b := b) (by omega), ofNat_eq (b := c) (by omega)]
  | @four a b c d w _ ha hb hc hd hw hrange hn =>
    unfold IsTail at hb hc hd
    rw [if_neg (by omega), if_neg (by omega), if_neg (by omega)]
    rw [ofNat_eq (b := a) (by omega), ofNat_eq (b := b) (by omega), ofNat_eq (b := c) (by omega),
      ofNat_eq (b := d) (by omega)]

theorem exists_byte {n : ℕ} (h : n < 256) : ∃ b : UInt8, UInt8.ofNat n = b ∧ b.toNat = n :=
  ⟨UInt8.ofNat n, rfl, UInt8.toNat_ofNat_of_lt h⟩

/-- Every character is spelled by the bytes that it is written as. -/
theorem spelled_encode (c : Char) : Spelled (String.utf8EncodeChar c) c.toNat := by
  have hvalid : c.toNat.isValidChar := c.valid
  rw [Nat.isValidChar] at hvalid
  obtain ⟨v, hv⟩ : ∃ v, v = c.toNat := ⟨_, rfl⟩
  have hval : c.val.toNat = v := hv.symm
  rw [String.utf8EncodeChar, hval, ← hv]
  rw [← hv] at hvalid
  clear hv hval
  split_ifs with h1 h2 h3
  · obtain ⟨a, ha, hva⟩ := exists_byte (n := v) (by omega)
    rw [ha, ← hva]
    exact .one (by omega)
  · obtain ⟨a, ha, hva⟩ := exists_byte (n := v / 64 % 0x20 + 0xC0) (by omega)
    obtain ⟨b, hb, hvb⟩ := exists_byte (n := v % 0x40 + 0x80) (by omega)
    have hn : v = (a.toNat - 0xC0) * 64 + (b.toNat - 0x80) := by omega
    rw [ha, hb]
    exact .two (by omega) ⟨by omega, by omega⟩ hn
  · obtain ⟨a, ha, hva⟩ := exists_byte (n := v / 4096 % 0x10 + 0xE0) (by omega)
    obtain ⟨b, hb, hvb⟩ := exists_byte (n := v / 64 % 0x40 + 0x80) (by omega)
    obtain ⟨c, hc, hvc⟩ := exists_byte (n := v % 0x40 + 0x80) (by omega)
    have hn : v = ((a.toNat - 0xE0) * 64 + (b.toNat - 0x80)) * 64 + (c.toNat - 0x80) := by omega
    rw [ha, hb, hc]
    exact .three (by omega) ⟨by omega, by omega⟩ ⟨by omega, by omega⟩ rfl (by omega) hn
  · obtain ⟨a, ha, hva⟩ := exists_byte (n := v / 262144 % 0x08 + 0xF0) (by omega)
    obtain ⟨b, hb, hvb⟩ := exists_byte (n := v / 4096 % 0x40 + 0x80) (by omega)
    obtain ⟨c, hc, hvc⟩ := exists_byte (n := v / 64 % 0x40 + 0x80) (by omega)
    obtain ⟨d, hd, hvd⟩ := exists_byte (n := v % 0x40 + 0x80) (by omega)
    have hn : v = (((a.toNat - 0xF0) * 64 + (b.toNat - 0x80)) * 64 + (c.toNat - 0x80)) * 64 +
        (d.toNat - 0x80) := by omega
    rw [ha, hb, hc, hd]
    exact .four (by omega) ⟨by omega, by omega⟩ ⟨by omega, by omega⟩ ⟨by omega, by omega⟩ rfl
      (by omega) hn

/-! ### First bytes -/

/-- Whether a byte may be the next one of a begun character. -/
def Begun.Admits (o : Begun) (b : UInt8) : Prop := o.low ≤ b ∧ b ≤ o.high

theorem Begun.admits_iff {o : Begun} {b : UInt8} (low high : ℕ) (hlow : o.low.toNat = low)
    (hhigh : o.high.toNat = high) : o.Admits b ↔ low ≤ b.toNat ∧ b.toNat ≤ high := by
  rw [← hlow, ← hhigh]
  exact Iff.rfl

/-- What the first byte of a character says about those behind it. -/
inductive Leads (a : UInt8) : Start → Prop
  | whole : a.toNat ≤ 0x7F → Leads a (.whole (Char.ofNat a.toNat))
  | two {o : Begun} : 0xC2 ≤ a.toNat ∧ a.toNat ≤ 0xDF → o.after = 0 → o.value = a.toNat - 0xC0 →
      (∀ b, o.Admits b ↔ IsTail b) → Leads a (.begun o)
  | three {o : Begun} : 0xE0 ≤ a.toNat ∧ a.toNat ≤ 0xEF → o.after = 1 → o.value = a.toNat - 0xE0 →
      (∀ b w, w = (a.toNat - 0xE0) * 64 + (b.toNat - 0x80) →
        (o.Admits b ↔ IsTail b ∧ 0x20 ≤ w ∧ (w < 0x360 ∨ 0x380 ≤ w))) → Leads a (.begun o)
  | four {o : Begun} : 0xF0 ≤ a.toNat ∧ a.toNat ≤ 0xF4 → o.after = 2 → o.value = a.toNat - 0xF0 →
      (∀ b w, w = (a.toNat - 0xF0) * 64 + (b.toNat - 0x80) →
        (o.Admits b ↔ IsTail b ∧ 0x10 ≤ w ∧ w < 0x110)) → Leads a (.begun o)
  | refused : 0x80 ≤ a.toNat ∧ a.toNat < 0xC2 ∨ 0xF4 < a.toNat → Leads a .refused

theorem leads_start (a : UInt8) : Leads a (start a) := by
  unfold start
  dsimp only
  simp only [UInt8.le_iff_toNat_le, UInt8.lt_iff_toNat_lt, beq_iff_eq, ← UInt8.toNat_inj,
    UInt8.reduceToNat]
  have hbyte := a.toNat_lt
  split_ifs with h1 h2 h3 h4 h5 h6 h7 h8 h9
  · exact .whole h1
  · exact .refused (by omega)
  · exact .two (by omega) rfl rfl fun b => Iff.rfl
  · refine .three (by omega) rfl (by simp only [h4]) fun b w hw => ?_
    rw [Begun.admits_iff 0xA0 0xBF rfl rfl, IsTail]
    omega
  · refine .three (by omega) rfl rfl fun b w hw => ?_
    rw [Begun.admits_iff 0x80 0x9F rfl rfl, IsTail]
    omega
  · refine .three (by omega) rfl rfl fun b w hw => ?_
    rw [Begun.admits_iff 0x80 0xBF rfl rfl, IsTail]
    omega
  · refine .four (by omega) rfl (by simp only [h7]) fun b w hw => ?_
    rw [Begun.admits_iff 0x90 0xBF rfl rfl, IsTail]
    omega
  · refine .four (by omega) rfl rfl fun b w hw => ?_
    rw [Begun.admits_iff 0x80 0xBF rfl rfl, IsTail]
    omega
  · refine .four (by omega) rfl rfl fun b w hw => ?_
    rw [Begun.admits_iff 0x80 0x8F rfl rfl, IsTail]
    omega
  · exact .refused (by omega)

/-! ### Reading a character -/

section

variable {done cs : List Char} {position n : ℕ} {o : Begun} {b : UInt8} {bytes rest : List UInt8}

/-- A begun character with one more byte, of which others are still missing. -/
def Begun.next (o : Begun) (b : UInt8) (n : ℕ) : Begun :=
  { first := o.first, count := o.count + 1, after := n, value := o.valueWith b }

theorem Begun.next_admits : (o.next b n).Admits c ↔ IsTail c := Iff.rfl

theorem decodeFrom_last (hb : o.Admits b) (hafter : o.after = 0) :
    decodeFrom done position (some o) (b :: rest) =
      decodeFrom (Char.ofNat (o.valueWith b) :: done) (position + 1) none rest := by
  have hcheck : (o.low ≤ b && b ≤ o.high) = true := by simpa [Begun.Admits] using hb
  rw [decodeFrom, if_pos hcheck, hafter]

theorem decodeFrom_next (hb : o.Admits b) (hafter : o.after = n + 1) :
    decodeFrom done position (some o) (b :: rest) =
      decodeFrom done (position + 1) (some (o.next b n)) rest := by
  have hcheck : (o.low ≤ b && b ≤ o.high) = true := by simpa [Begun.Admits] using hb
  rw [decodeFrom, if_pos hcheck, hafter]
  rfl

/-- A begun character that is read has a next byte. -/
theorem exists_admits (h : decodeFrom done position (some o) bytes = .ok cs) :
    ∃ b rest, bytes = b :: rest ∧ o.Admits b := by
  cases bytes with
  | nil => cases h
  | cons b rest =>
    refine ⟨b, rest, rfl, ?_⟩
    by_contra hb
    have hcheck : ¬ (o.low ≤ b && b ≤ o.high) = true := by simpa [Begun.Admits] using hb
    rw [decodeFrom, if_neg hcheck] at h
    cases h

/-- The bytes of a character are read as that character. -/
theorem Spelled.decodeFrom (h : Spelled bytes n) :
    decodeFrom done position none (bytes ++ rest) =
      decodeFrom (Char.ofNat n :: done) (position + bytes.length) none rest := by
  cases h with
  | @one a ha =>
    have hlead := leads_start a
    rw [List.cons_append, Utf8.decodeFrom]
    generalize start a = first at hlead
    cases hlead with
    | whole => rfl
    | two | three | four | refused => omega
  | @two a b _ ha hb hn =>
    have hlead := leads_start a
    rw [List.cons_append, Utf8.decodeFrom]
    simp only [List.cons_append, List.nil_append, List.length_cons, List.length_nil]
    generalize start a = first at hlead
    cases hlead with
    | @two o _ hafter hvalue hadmits =>
      have hchar : o.valueWith b = n := by
        unfold Begun.valueWith
        omega
      dsimp only
      rw [decodeFrom_last ((hadmits b).mpr hb) hafter, hchar]
    | whole | three | four | refused => omega
  | @three a b c w _ ha hb hc hw hrange hn =>
    have hlead := leads_start a
    rw [List.cons_append, Utf8.decodeFrom]
    simp only [List.cons_append, List.nil_append, List.length_cons, List.length_nil]
    generalize start a = first at hlead
    cases hlead with
    | @three o _ hafter hvalue hadmits =>
      have hchar : (o.next b 0).valueWith c = n := by
        unfold Begun.next Begun.valueWith
        dsimp only
        omega
      dsimp only
      rw [decodeFrom_next ((hadmits b w hw).mpr ⟨hb, hrange⟩) hafter,
        decodeFrom_last (Begun.next_admits.mpr hc) rfl, hchar]
    | whole | two | four | refused => omega
  | @four a b c d w _ ha hb hc hd hw hrange hn =>
    have hlead := leads_start a
    rw [List.cons_append, Utf8.decodeFrom]
    simp only [List.cons_append, List.nil_append, List.length_cons, List.length_nil]
    generalize start a = first at hlead
    cases hlead with
    | @four o _ hafter hvalue hadmits =>
      have hchar : ((o.next b 1).next c 0).valueWith d = n := by
        unfold Begun.next Begun.valueWith
        dsimp only
        omega
      dsimp only
      rw [decodeFrom_next ((hadmits b w hw).mpr ⟨hb, hrange⟩) hafter,
        decodeFrom_next (Begun.next_admits.mpr hc) rfl,
        decodeFrom_last (Begun.next_admits.mpr hd) rfl, hchar]
    | whole | two | three | refused => omega

/-- What is read begins with the bytes of a character. -/
theorem exists_spelled {a : UInt8} (h : Utf8.decodeFrom done position none (a :: rest) = .ok cs) :
    ∃ bytes n tail, a :: rest = bytes ++ tail ∧ Spelled bytes n := by
  have hlead := leads_start a
  rw [Utf8.decodeFrom] at h
  generalize start a = first at hlead h
  cases hlead with
  | whole ha => exact ⟨[a], a.toNat, rest, rfl, .one ha⟩
  | refused => cases h
  | two ha hafter hvalue hadmits =>
    obtain ⟨b, rest, rfl, hb⟩ := exists_admits h
    exact ⟨[a, b], _, rest, rfl, .two ha ((hadmits b).mp hb) rfl⟩
  | three ha hafter hvalue hadmits =>
    obtain ⟨b, rest, rfl, hb⟩ := exists_admits h
    dsimp only at h
    rw [decodeFrom_next hb hafter] at h
    obtain ⟨c, rest, rfl, hc⟩ := exists_admits h
    obtain ⟨hb, hrange⟩ := (hadmits b _ rfl).mp hb
    exact ⟨[a, b, c], _, rest, rfl, .three ha hb hc rfl hrange rfl⟩
  | four ha hafter hvalue hadmits =>
    obtain ⟨b, rest, rfl, hb⟩ := exists_admits h
    dsimp only at h
    rw [decodeFrom_next hb hafter] at h
    obtain ⟨c, rest, rfl, hc⟩ := exists_admits h
    rw [decodeFrom_next hc rfl] at h
    obtain ⟨d, rest, rfl, hd⟩ := exists_admits h
    obtain ⟨hb, hrange⟩ := (hadmits b _ rfl).mp hb
    exact ⟨[a, b, c, d], _, rest, rfl, .four ha hb hc hd rfl hrange rfl⟩

/-! ### Reading a text -/

theorem decodeFrom_encode (text : List Char) (done : List Char) (position : ℕ) :
    Utf8.decodeFrom done position none (text.flatMap String.utf8EncodeChar) =
      .ok (done.reverse ++ text) := by
  induction text generalizing done position with
  | nil => simp [Utf8.decodeFrom]
  | cons c text ih =>
    rw [List.flatMap_cons, (spelled_encode c).decodeFrom, Char.ofNat_toNat, ih]
    simp

theorem encode_of_decodeFrom (h : Utf8.decodeFrom done position none bytes = .ok cs) :
    ∃ text : List Char, bytes = text.flatMap String.utf8EncodeChar := by
  induction hsize : bytes.length using Nat.strongRecOn generalizing bytes done position with
  | _ size ih =>
    cases bytes with
    | nil => exact ⟨[], rfl⟩
    | cons a rest =>
      obtain ⟨first, n, tail, heq, hfirst⟩ := exists_spelled h
      rw [heq, hfirst.decodeFrom] at h
      have hlength : (a :: rest).length = first.length + tail.length := by
        rw [heq, List.length_append]
      have hpos : 0 < first.length := by cases hfirst <;> exact Nat.succ_pos _
      obtain ⟨text, htext⟩ := ih tail.length (by omega) h rfl
      exact ⟨Char.ofNat n :: text, by rw [heq, List.flatMap_cons, hfirst.encode, ← htext]⟩

/-- **Bytes are read as a text exactly if they are the bytes of that text.** -/
theorem decode_eq_ok_iff {s : String} : decode bytes = .ok s ↔ bytes = encode s := by
  have hread (text : List Char) :
      decode (text.flatMap String.utf8EncodeChar) = .ok (String.ofList text) := by
    rw [decode, decodeFrom_encode]
    rfl
  constructor
  · intro h
    cases hd : Utf8.decodeFrom [] 0 none bytes with
    | error fault =>
      rw [decode, hd] at h
      cases h
    | ok cs =>
      obtain ⟨text, rfl⟩ := encode_of_decodeFrom hd
      rw [hread] at h
      cases h
      rw [encode, String.toList_ofList]
  · rintro rfl
    rw [encode, hread, String.ofList_toList]

end

end Scrawl.Text.Utf8
