import Mathlib.Data.List.Basic
import Scrawl.Text.Json

/-!
# Scrawl.Proofs.Text.Json — objects are read back

A reader of objects of plain values: it takes the white space, the escapes and the numbers that such
texts may have, and reads a string by its sixteen-bit units.  What is written on one line is in
printable ASCII, and it is read back as the fields that were written.

* `read?`: the reader.
* `fourHex?_hex`, `readUnits_char`: one character is read back by its units.
* `readString?_string`, `readValue?_print`: so are strings and values.
* `read?_object`: so are the fields of an object; `isShown_object`: the line.
-/

namespace Scrawl.Text.Json

variable {cs rest : List Char} {c : Char} {fields : List (String × Value)}

/-! ### A reader -/

/-- The value of a hexadecimal digit. -/
def hexValue? (c : Char) : Option Nat :=
  if c.isDigit then some (c.toNat - '0'.toNat)
  else if 'a' ≤ c ∧ c ≤ 'f' then some (c.toNat - 'a'.toNat + 10)
  else if 'A' ≤ c ∧ c ≤ 'F' then some (c.toNat - 'A'.toNat + 10)
  else none

/-- The value of four hexadecimal digits. -/
def fourHex? (a b c d : Char) : Option Nat := do
  return 0x1000 * (← hexValue? a) + 0x100 * (← hexValue? b) + 0x10 * (← hexValue? c) +
    (← hexValue? d)

/-- The character that an escape of one letter stands for. -/
def escaped? : Char → Option Nat
  | '"' => some '"'.toNat
  | '\\' => some '\\'.toNat
  | '/' => some '/'.toNat
  | 'b' => some 0x08
  | 'f' => some 0x0C
  | 'n' => some 0x0A
  | 'r' => some 0x0D
  | 't' => some 0x09
  | _ => none

/-- The sixteen-bit units of a character. -/
def units (c : Char) : List Nat :=
  let n := c.toNat
  if n < 0x10000 then [n] else [0xD800 + (n - 0x10000) / 0x400, 0xDC00 + (n - 0x10000) % 0x400]

/-- Reads the units of a string up to the quote behind it. -/
def readUnits : List Char → Option (List Nat × List Char)
  | [] => none
  | '"' :: rest => some ([], rest)
  | '\\' :: 'u' :: a :: b :: c :: d :: rest => do
    let unit ← fourHex? a b c d
    (readUnits rest).map fun read => (unit :: read.1, read.2)
  | '\\' :: letter :: rest => do
    let unit ← escaped? letter
    (readUnits rest).map fun read => (unit :: read.1, read.2)
  | c :: rest =>
    if c.toNat < 0x20 ∨ c = '\\' then none
    else (readUnits rest).map fun read => (units c ++ read.1, read.2)

/-- The characters of units. -/
def ofUnits : List Nat → Option (List Char)
  | [] => some []
  | [u] => if u < 0xD800 ∨ 0xE000 ≤ u then some [Char.ofNat u] else none
  | u :: v :: rest =>
    if u < 0xD800 ∨ 0xE000 ≤ u then (ofUnits (v :: rest)).map (Char.ofNat u :: ·)
    else if u < 0xDC00 ∧ 0xDC00 ≤ v ∧ v < 0xE000 then
      (ofUnits rest).map (Char.ofNat (0x10000 + 0x400 * (u - 0xD800) + (v - 0xDC00)) :: ·)
    else none

/-- Reads a string. -/
def readString? : List Char → Option (String × List Char)
  | '"' :: cs => do
    let (units, rest) ← readUnits cs
    return (String.ofList (← ofUnits units), rest)
  | _ => none

/-- Reads a number: no zero stands in front of another digit. -/
def readNumber? (cs : List Char) : Option (Nat × List Char) :=
  let n := Nat.ofDigitChars 10 (cs.takeWhile Char.isDigit) 0
  if cs.takeWhile Char.isDigit = Nat.toDigits 10 n then some (n, cs.dropWhile Char.isDigit)
  else none

/-- Reads a plain value. -/
def readValue? : List Char → Option (Value × List Char)
  | 'n' :: 'u' :: 'l' :: 'l' :: rest => some (.null, rest)
  | 't' :: 'r' :: 'u' :: 'e' :: rest => some (.bool true, rest)
  | 'f' :: 'a' :: 'l' :: 's' :: 'e' :: rest => some (.bool false, rest)
  | '-' :: rest => (readNumber? rest).map fun read => (.int (-read.1), read.2)
  | '"' :: rest => (readString? ('"' :: rest)).map fun read => (.string read.1, read.2)
  | cs => (readNumber? cs).map fun read => (.int read.1, read.2)

/-- Whether a character is white space. -/
def isBlank (c : Char) : Bool := c == ' ' || c == '\t' || c == '\n' || c == '\r'

/-- What follows white space. -/
def skip (cs : List Char) : List Char := cs.dropWhile isBlank

/-- Reads a name and its value. -/
def readField? (cs : List Char) : Option ((String × Value) × List Char) := do
  let (name, rest) ← readString? (skip cs)
  match skip rest with
  | ':' :: rest =>
    let (value, rest) ← readValue? (skip rest)
    return ((name, value), skip rest)
  | _ => none

/-- Reads fields up to the bracket behind them, at most so many. -/
def readFields? : Nat → List Char → Option (List (String × Value) × List Char)
  | 0, _ => none
  | n + 1, cs => do
    let (field, rest) ← readField? cs
    match rest with
    | '\x7d' :: rest => return ([field], rest)
    | ',' :: rest => (readFields? n rest).map fun read => (field :: read.1, read.2)
    | _ => none

/-- Reads an object of plain values. -/
def read? (s : String) : Option (List (String × Value)) :=
  match skip s.toList with
  | '\x7b' :: rest =>
    match skip rest with
    | '\x7d' :: rest => if skip rest = [] then some [] else none
    | rest => ((readFields? s.length rest).filter fun read => (skip read.2).isEmpty).map (·.1)
  | _ => none

/-! ### Characters -/

theorem hexValue?_digitChar {n : Nat} (h : n < 16) : hexValue? n.digitChar = some n := by
  have hall : ∀ n < 16, hexValue? (Nat.digitChar n) = some n := by decide
  exact hall n h

/-- The four digits of a number. -/
theorem hex_four {n : Nat} (h : n < 0x10000) : hex 4 n =
    [Nat.digitChar (n / 0x1000), Nat.digitChar (n / 0x100 % 16), Nat.digitChar (n / 16 % 16),
      Nat.digitChar (n % 16)] := by
  -- digits that are no digits of the number are zeros
  have hzero {k : Nat} (hk : k = 0) : Nat.digitChar (k % 16) = '0' := by rw [hk]; rfl
  have hlow : Nat.digitChar (n / 0x1000) = Nat.digitChar (n / 0x1000 % 16) := by
    rw [Nat.mod_eq_of_lt (by omega)]
  rw [hlow]
  unfold hex
  rcases Nat.lt_or_ge n 16 with h₁ | h₁
  · rw [Nat.toDigits_of_lt_base h₁, hzero (show n / 0x1000 = 0 by omega),
      hzero (show n / 0x100 = 0 by omega), hzero (show n / 16 = 0 by omega), Nat.mod_eq_of_lt h₁]
    rfl
  rw [Nat.toDigits_of_base_le (by decide) h₁]
  rcases Nat.lt_or_ge n 0x100 with h₂ | h₂
  · rw [Nat.toDigits_of_lt_base (show n / 16 < 16 by omega), hzero (show n / 0x1000 = 0 by omega),
      hzero (show n / 0x100 = 0 by omega), Nat.mod_eq_of_lt (show n / 16 < 16 by omega)]
    rfl
  rw [Nat.toDigits_of_base_le (by decide) (show 16 ≤ n / 16 by omega), Nat.div_div_eq_div_mul]
  rcases Nat.lt_or_ge n 0x1000 with h₃ | h₃
  · rw [Nat.toDigits_of_lt_base (show n / (16 * 16) < 16 by omega),
      hzero (show n / 0x1000 = 0 by omega), Nat.mod_eq_of_lt (show n / 0x100 < 16 by omega)]
    rfl
  rw [Nat.toDigits_of_base_le (by decide) (show 16 ≤ n / (16 * 16) by omega),
    Nat.div_div_eq_div_mul, Nat.toDigits_of_lt_base (show n / (16 * 16 * 16) < 16 by omega),
    Nat.mod_eq_of_lt (show n / 0x1000 < 16 by omega)]
  rfl

theorem fourHex?_digits {n : Nat} (h : n < 0x10000) :
    fourHex? (Nat.digitChar (n / 0x1000)) (Nat.digitChar (n / 0x100 % 16))
      (Nat.digitChar (n / 16 % 16)) (Nat.digitChar (n % 16)) = some n := by
  unfold fourHex?
  rw [hexValue?_digitChar (by omega), hexValue?_digitChar (by omega),
    hexValue?_digitChar (by omega), hexValue?_digitChar (by omega)]
  simp only [bind, Option.bind, pure]
  congr 1
  omega

/-- A unit is read back. -/
theorem readUnits_unit {n : Nat} (h : n < 0x10000) (rest : List Char) :
    readUnits (unit n ++ rest) = (readUnits rest).map fun read => (n :: read.1, read.2) := by
  rw [unit, hex_four h]
  simp only [List.cons_append, List.nil_append]
  rw [readUnits, fourHex?_digits h]
  rfl

theorem toNat_lt (c : Char) : c.toNat < 0x110000 := by
  rcases c.valid with h | h
  · exact Nat.lt_trans h (by decide)
  · exact h.2

/-- A character that is no escape stands for itself. -/
theorem readUnits_plain (hquote : c ≠ '"') (hslash : c ≠ '\\') (h : 0x20 ≤ c.toNat) :
    readUnits (c :: rest) = (readUnits rest).map fun read => (units c ++ read.1, read.2) := by
  have hprint : ¬ (c.toNat < 0x20 ∨ c = '\\') := not_or.mpr ⟨Nat.not_lt.mpr h, hslash⟩
  rw [readUnits, if_neg hprint]
  · exact hquote
  · exact fun _ _ _ _ _ hc _ => hslash hc
  · exact fun _ _ hc _ => hslash hc

/-- **A character is read back** by its units. -/
theorem readUnits_char (c : Char) (rest : List Char) :
    readUnits (char c ++ rest) = (readUnits rest).map fun read => (units c ++ read.1, read.2) := by
  have hlimit := toNat_lt c
  unfold char
  split
  · rfl
  · rfl
  · rfl
  · rfl
  · rfl
  · rfl
  · rfl
  · next hquote hslash _ _ _ _ _ =>
    dsimp only
    split_ifs with hplain hsmall
    · simp only [Bool.and_eq_true, decide_eq_true_eq] at hplain
      exact readUnits_plain hquote hslash hplain.1
    · rw [readUnits_unit hsmall, units, if_pos hsmall]
      rfl
    · rw [List.append_assoc, readUnits_unit (by omega), readUnits_unit (by omega), units,
        if_neg hsmall, Option.map_map]
      rfl

theorem ofUnits_units (c : Char) (us : List Nat) :
    ofUnits (units c ++ us) = (ofUnits us).map (c :: ·) := by
  have hvalid : c.toNat < 0xD800 ∨ 0xE000 ≤ c.toNat ∧ c.toNat < 0x110000 := by
    rcases c.valid with h | h
    · exact Or.inl h
    · exact Or.inr ⟨h.1, h.2⟩
  unfold units
  dsimp only
  split_ifs with hsmall
  · have hunit : c.toNat < 0xD800 ∨ 0xE000 ≤ c.toNat := by omega
    cases us with
    | nil => simp [ofUnits, hunit, Char.ofNat_toNat]
    | cons u us => simp [ofUnits, hunit, Char.ofNat_toNat]
  · have hhigh : ¬ (0xD800 + (c.toNat - 0x10000) / 0x400 < 0xD800 ∨
        0xE000 ≤ 0xD800 + (c.toNat - 0x10000) / 0x400) := by omega
    have hpair : 0xD800 + (c.toNat - 0x10000) / 0x400 < 0xDC00 ∧
        0xDC00 ≤ 0xDC00 + (c.toNat - 0x10000) % 0x400 ∧
        0xDC00 + (c.toNat - 0x10000) % 0x400 < 0xE000 := by omega
    have hjoin : 0x10000 + 0x400 * (0xD800 + (c.toNat - 0x10000) / 0x400 - 0xD800) +
        (0xDC00 + (c.toNat - 0x10000) % 0x400 - 0xDC00) = c.toNat := by omega
    rw [List.cons_append, List.cons_append, List.nil_append, ofUnits, if_neg hhigh, if_pos hpair,
      hjoin, Char.ofNat_toNat]

/-! ### Strings -/

theorem readUnits_chars (cs rest : List Char) :
    readUnits (cs.flatMap char ++ '"' :: rest) = some (cs.flatMap units, rest) := by
  induction cs with
  | nil => rfl
  | cons c cs ih =>
    rw [List.flatMap_cons, List.append_assoc, readUnits_char, ih]
    rfl

theorem ofUnits_chars (cs : List Char) : ofUnits (cs.flatMap units) = some cs := by
  induction cs with
  | nil => rfl
  | cons c cs ih =>
    rw [List.flatMap_cons, ofUnits_units, ih]
    rfl

/-- **A string is read back.** -/
theorem readString?_string (s : String) (rest : List Char) :
    readString? ((string s).toList ++ rest) = some (s, rest) := by
  rw [string, String.toList_ofList, List.cons_append, List.append_assoc]
  change (readUnits (s.toList.flatMap char ++ '"' :: rest)).bind _ = _
  rw [readUnits_chars]
  change (ofUnits (s.toList.flatMap units)).bind _ = _
  rw [ofUnits_chars]
  simp

/-! ### Values -/

/-- What follows a value does not go on with a digit. -/
def EndsNumber (rest : List Char) : Prop := ∀ c ∈ rest.head?, c.isDigit = false

theorem readNumber?_digits (n : Nat) (hrest : EndsNumber rest) :
    readNumber? (Nat.toDigits 10 n ++ rest) = some (n, rest) := by
  have hdigits : ∀ c ∈ Nat.toDigits 10 n, c.isDigit = true := fun c hc =>
    Nat.isDigit_of_mem_toDigits (by decide) (by decide) hc
  have hends : rest.takeWhile Char.isDigit = [] ∧ rest.dropWhile Char.isDigit = rest := by
    cases rest with
    | nil => exact ⟨rfl, rfl⟩
    | cons c rest =>
      have hc : ¬ c.isDigit = true := by rw [hrest c rfl]; decide
      exact ⟨List.takeWhile_cons_of_neg hc, List.dropWhile_cons_of_neg hc⟩
  unfold readNumber?
  rw [List.takeWhile_append_of_pos hdigits, List.dropWhile_append_of_pos hdigits, hends.1, hends.2,
    List.append_nil, Nat.ofDigitChars_ten_toDigits]
  dsimp only
  rw [if_pos rfl]

/-- A digit begins no other value than a number. -/
theorem readValue?_digits (n : Nat) (hrest : EndsNumber rest) :
    readValue? (Nat.toDigits 10 n ++ rest) = some (.int n, rest) := by
  have hread := readNumber?_digits n hrest
  obtain ⟨d, ds, hcons⟩ := List.exists_cons_of_ne_nil (Nat.toDigits_ne_nil (n := n) (b := 10))
  have hd : d.isDigit = true :=
    Nat.isDigit_of_mem_toDigits (b := 10) (n := n) (by decide) (by decide) (by simp [hcons])
  rw [hcons, List.cons_append] at hread ⊢
  rw [readValue?.eq_def]
  split
  case h_6 => rw [hread]; rfl
  all_goals
    next heq =>
      obtain ⟨rfl, -⟩ := List.cons.inj heq
      exact absurd hd (by decide)

theorem print_ofNat (n : Nat) : (Value.print (.int (Int.ofNat n))).toList = Nat.toDigits 10 n := by
  change (Nat.repr n).toList = _
  rw [Nat.repr_eq_ofList_toDigits, String.toList_ofList]

theorem print_negSucc (n : Nat) :
    (Value.print (.int (Int.negSucc n))).toList = '-' :: Nat.toDigits 10 (n + 1) := by
  change ("-" ++ Nat.repr (n + 1)).toList = _
  rw [Nat.repr_eq_ofList_toDigits, String.toList_append, String.toList_ofList,
    String.toList_ofList]
  rfl

/-- **A value is read back.** -/
theorem readValue?_print (v : Value) (hrest : EndsNumber rest) :
    readValue? (v.print.toList ++ rest) = some (v, rest) := by
  cases v with
  | null => rfl
  | bool b => cases b <;> rfl
  | int i =>
    cases i with
    | ofNat n =>
      rw [print_ofNat, readValue?_digits n hrest]
      rfl
    | negSucc n =>
      rw [print_negSucc, List.cons_append, readValue?, readNumber?_digits (n + 1) hrest]
      rfl
  | string t =>
    obtain ⟨cs, hquote⟩ : ∃ cs, (string t).toList ++ rest = '"' :: cs := by
      rw [string, String.toList_ofList]
      exact ⟨_, rfl⟩
    have hread := readString?_string t rest
    rw [Value.print, hquote, readValue?, ← hquote, hread]
    rfl

/-! ### Objects -/

/-- The text of a field. -/
def fieldText (f : String × Value) : String := string f.1 ++ ": " ++ f.2.print

theorem skip_string (t : String) (rest : List Char) :
    skip ((string t).toList ++ rest) = (string t).toList ++ rest := by
  rw [string, String.toList_ofList]
  rfl

theorem skip_digits (n : Nat) (rest : List Char) :
    skip (Nat.toDigits 10 n ++ rest) = Nat.toDigits 10 n ++ rest := by
  obtain ⟨d, ds, hcons⟩ := List.exists_cons_of_ne_nil (Nat.toDigits_ne_nil (n := n) (b := 10))
  have hd : d.isDigit = true :=
    Nat.isDigit_of_mem_toDigits (b := 10) (n := n) (by decide) (by decide) (by simp [hcons])
  rw [hcons, List.cons_append, skip, List.dropWhile_cons_of_neg]
  intro hblank
  simp only [isBlank, Bool.or_eq_true, beq_iff_eq] at hblank
  rcases hblank with ((rfl | rfl) | rfl) | rfl <;> exact absurd hd (by decide)

/-- No value begins with white space. -/
theorem skip_print (v : Value) (rest : List Char) :
    skip (v.print.toList ++ rest) = v.print.toList ++ rest := by
  cases v with
  | null => rfl
  | bool b => cases b <;> rfl
  | int i =>
    cases i with
    | ofNat n => rw [print_ofNat, skip_digits]
    | negSucc n =>
      rw [print_negSucc]
      rfl
  | string t => exact skip_string t rest

theorem readField?_text (f : String × Value) (hrest : EndsNumber rest) :
    readField? ((fieldText f).toList ++ rest) = some (f, skip rest) := by
  have htext : (fieldText f).toList ++ rest =
      (string f.1).toList ++ ':' :: ' ' :: (f.2.print.toList ++ rest) := by
    simp [fieldText]
  unfold readField?
  rw [htext, skip_string, readString?_string]
  change (readValue? (skip (' ' :: (f.2.print.toList ++ rest)))).bind _ = _
  have hblank : skip (' ' :: (f.2.print.toList ++ rest)) = skip (f.2.print.toList ++ rest) := rfl
  rw [hblank, skip_print, readValue?_print _ hrest]
  rfl

theorem endsNumber_cons {c : Char} (h : c.isDigit = false) (rest : List Char) :
    EndsNumber (c :: rest) := by
  rintro d ⟨⟩
  exact h

/-- A blank in front of a name does not matter. -/
theorem readFields?_blank (n : Nat) (cs : List Char) :
    readFields? n (' ' :: cs) = readFields? n cs := by
  cases n <;> rfl

theorem readFields?_texts {n : Nat} (hne : fields ≠ []) (hn : fields.length ≤ n)
    (rest : List Char) :
    readFields? n ((", ".intercalate (fields.map fieldText)).toList ++ '\x7d' :: rest) =
      some (fields, rest) := by
  induction fields generalizing n with
  | nil => exact absurd rfl hne
  | cons f fields ih =>
    obtain ⟨n, rfl⟩ : ∃ k, n = k + 1 := ⟨n - 1, by simp at hn; omega⟩
    cases fields with
    | nil =>
      rw [List.map_singleton, String.intercalate_singleton, readFields?,
        readField?_text f (endsNumber_cons (by decide) rest)]
      rfl
    | cons next fields =>
      have htext : (", ".intercalate ((f :: next :: fields).map fieldText)).toList ++
          '\x7d' :: rest = (fieldText f).toList ++ ',' :: ' ' ::
            ((", ".intercalate ((next :: fields).map fieldText)).toList ++ '\x7d' :: rest) := by
        simp [String.intercalate_cons_cons]
      have hmore := ih (n := n) (by simp) (by simpa using hn)
      rw [htext, readFields?, readField?_text f (endsNumber_cons (by decide) _)]
      change (readFields? n (' ' :: _)).map _ = _
      rw [readFields?_blank, hmore]
      rfl

/-- There are no more fields than characters. -/
theorem length_le_texts (fields : List (String × Value)) :
    fields.length ≤ (", ".intercalate (fields.map fieldText)).toList.length := by
  induction fields with
  | nil => exact Nat.zero_le _
  | cons f fields ih =>
    have hf : 0 < (fieldText f).toList.length := by
      rw [fieldText, string]
      simp
    cases fields with
    | nil =>
      rw [List.map_singleton, String.intercalate_singleton]
      exact hf
    | cons next fields =>
      rw [List.map_cons, List.map_cons, String.intercalate_cons_cons, ← List.map_cons]
      simp only [String.toList_append, List.length_append]
      simp only [List.length_cons] at ih ⊢
      omega

theorem toList_object (fields : List (String × Value)) : (object fields).toList =
    '\x7b' :: ((", ".intercalate (fields.map fieldText)).toList ++ ['\x7d']) := by
  change ("\x7b" ++ ", ".intercalate (fields.map fieldText) ++ "\x7d").toList = _
  rw [String.toList_append, String.toList_append]
  rfl

/-- **An object is read back** as its fields. -/
theorem read?_object (fields : List (String × Value)) : read? (object fields) = some fields := by
  have hlength : fields.length ≤ (object fields).length := by
    have hle := length_le_texts fields
    rw [← String.length_toList, toList_object]
    simp only [List.length_cons, List.length_append]
    omega
  cases fields with
  | nil => rfl
  | cons f fields =>
    have hread := readFields?_texts (by simp) hlength []
    obtain ⟨cs, hquote⟩ : ∃ cs, (", ".intercalate ((f :: fields).map fieldText)).toList ++
        ['\x7d'] = '"' :: cs := by
      cases fields <;> simp [String.intercalate_cons_cons, fieldText, string]
    unfold read?
    rw [toList_object]
    rw [hquote] at hread ⊢
    change ((readFields? (object (f :: fields)).length ('"' :: cs)).filter _).map _ = _
    rw [hread]
    rfl

/-! ### The line -/

/-- Whether a character is shown as itself in ASCII. -/
def IsShown (c : Char) : Prop := 0x20 ≤ c.toNat ∧ c.toNat ≤ 0x7E

instance (c : Char) : Decidable (IsShown c) := inferInstanceAs (Decidable (_ ∧ _))

theorem isShown_of_all (h : cs.all (fun c => decide (IsShown c)) = true) :
    ∀ c ∈ cs, IsShown c := fun c hc => of_decide_eq_true (List.all_eq_true.mp h c hc)

theorem isShown_digitChar (n : Nat) : IsShown (Nat.digitChar (n % 16)) := by
  have hall : ∀ n < 16, IsShown (Nat.digitChar n) := by decide
  exact hall (n % 16) (Nat.mod_lt n (by decide))

theorem isShown_unit {n : Nat} (h : n < 0x10000) : ∀ c ∈ unit n, IsShown c := by
  have hfirst : Nat.digitChar (n / 0x1000) = Nat.digitChar (n / 0x1000 % 16) := by
    rw [Nat.mod_eq_of_lt (by omega)]
  rw [unit, hex_four h, hfirst]
  simp only [List.forall_mem_cons]
  exact ⟨by decide, by decide, isShown_digitChar _, isShown_digitChar _, isShown_digitChar _,
    isShown_digitChar _, by simp⟩

theorem isShown_char (c : Char) : ∀ x ∈ char c, IsShown x := by
  have hlimit := toNat_lt c
  unfold char
  split
  case h_8 =>
    dsimp only
    split_ifs with hplain hsmall
    · simpa [IsShown] using hplain
    · exact isShown_unit hsmall
    · intro x hx
      rcases List.mem_append.mp hx with hx | hx
      · exact isShown_unit (by omega) x hx
      · exact isShown_unit (by omega) x hx
  all_goals exact isShown_of_all (by decide)

theorem isShown_string (t : String) : ∀ c ∈ (string t).toList, IsShown c := by
  intro c hc
  rw [string, String.toList_ofList, List.mem_cons, List.mem_append, List.mem_flatMap] at hc
  rcases hc with rfl | ⟨d, -, hd⟩ | hc
  · decide
  · exact isShown_char d c hd
  · obtain rfl := List.mem_singleton.mp hc
    decide

theorem isShown_digits (n : Nat) : ∀ c ∈ Nat.toDigits 10 n, IsShown c := by
  intro c hc
  have hd := Nat.isDigit_of_mem_toDigits (by decide) (by decide) hc
  simp only [Char.isDigit, Bool.and_eq_true, decide_eq_true_eq] at hd
  exact ⟨Nat.le_trans (by decide) (show 48 ≤ c.toNat from hd.1),
    Nat.le_trans (show c.toNat ≤ 57 from hd.2) (by decide)⟩

theorem isShown_print (v : Value) : ∀ c ∈ v.print.toList, IsShown c := by
  cases v with
  | null => exact isShown_of_all (by decide)
  | bool b => cases b <;> exact isShown_of_all (by decide)
  | int i =>
    cases i with
    | ofNat n =>
      rw [print_ofNat]
      exact isShown_digits n
    | negSucc n =>
      rw [print_negSucc, List.forall_mem_cons]
      exact ⟨by decide, isShown_digits (n + 1)⟩
  | string t => exact isShown_string t

/-- **An object is written on one line** of ASCII. -/
theorem isShown_object (fields : List (String × Value)) :
    ∀ c ∈ (object fields).toList, IsShown c := by
  have htexts (texts : List String) (h : ∀ t ∈ texts, ∀ c ∈ t.toList, IsShown c) :
      ∀ c ∈ (", ".intercalate texts).toList, IsShown c := by
    induction texts with
    | nil => simp
    | cons t texts ih =>
      rw [List.forall_mem_cons] at h
      cases texts with
      | nil =>
        rw [String.intercalate_singleton]
        exact h.1
      | cons next texts =>
        rw [String.intercalate_cons_cons, String.toList_append, String.toList_append,
          List.forall_mem_append, List.forall_mem_append]
        exact ⟨⟨h.1, isShown_of_all (by decide)⟩, ih h.2⟩
  have hfields : ∀ t ∈ fields.map fieldText, ∀ c ∈ t.toList, IsShown c := by
    intro t ht
    obtain ⟨f, -, rfl⟩ := List.mem_map.mp ht
    rw [fieldText, String.toList_append, String.toList_append, List.forall_mem_append,
      List.forall_mem_append]
    exact ⟨⟨isShown_string f.1, isShown_of_all (by decide)⟩, isShown_print f.2⟩
  rw [toList_object, List.forall_mem_cons, List.forall_mem_append]
  exact ⟨by decide, htexts _ hfields, isShown_of_all (by decide)⟩

end Scrawl.Text.Json
