import Scrawl.Proofs.File.Swap

/-!
# Scrawl.Proofs.File.Requests — looking, writing in place and swapping

A path is walked before anything is done at its end.  Writing a file in place and swapping it in
walk the same path and are refused for the same reasons, but for the temporary file of a swap: its
name is longer than that of the target, so there may be no room for it where there is room for the
target.

* `exists?_cases`: what looking for a path comes to.
* `foldersAbove_walk`, `folder_of_place`: a file stands in a folder, with folders above it.
* `write_isSystem`, `swap_isSystem`: the system refuses, unless there is a zero character in the
  path.
* `swap_of_write`, `write_of_swap`: a file is swapped in exactly if it is written and there is room.
-/

namespace Scrawl.File

/-! ### Texts of paths -/

namespace Path

variable {p : Path} {c : Char}

theorem mem_intercalate (hc : c ≠ '/') (parts : List String) :
    c ∈ ("/".intercalate parts).toList ↔ ∃ part ∈ parts, c ∈ part.toList := by
  induction parts with
  | nil => simp
  | cons part parts ih =>
    cases parts with
    | nil => simp
    | cons next parts =>
      rw [String.intercalate_cons_cons, String.toList_append, String.toList_append,
        List.mem_append, List.mem_append, ih]
      simp [hc]

theorem toString_of_empty (h : p.root ++ "/".intercalate p.parts = "") : p.toString = "." := by
  rw [toString, h]
  rfl

theorem toString_of_ne (h : p.root ++ "/".intercalate p.parts ≠ "") :
    p.toString = p.root ++ "/".intercalate p.parts := by
  have hempty : ¬ (p.root ++ "/".intercalate p.parts).isEmpty = true := by
    rwa [String.isEmpty_iff]
  exact if_neg hempty

/-- The characters of a path are those of its root and its components, with slashes and a dot. -/
theorem mem_toString (hslash : c ≠ '/') (hdot : c ≠ '.') :
    c ∈ p.toString.toList ↔ c ∈ p.root.toList ∨ ∃ part ∈ p.parts, c ∈ part.toList := by
  have htext : c ∈ (p.root ++ "/".intercalate p.parts).toList ↔
      c ∈ p.root.toList ∨ ∃ part ∈ p.parts, c ∈ part.toList := by
    rw [String.toList_append, List.mem_append, mem_intercalate hslash]
  rw [← htext]
  by_cases hempty : p.root ++ "/".intercalate p.parts = ""
  · rw [toString_of_empty hempty, hempty]
    simp [hdot]
  · rw [toString_of_ne hempty]

/-- The text of a folder is the beginning of the text of a path in it. -/
theorem toString_parent (p : Path) :
    p.parent.toString = "." ∨ ∃ rest, p.toString = p.parent.toString ++ rest := by
  rcases List.eq_nil_or_concat p.parts with hnil | ⟨names, name, hparts⟩
  · have hsame : p.parent = p := by rw [parent, hnil, List.dropLast_nil, ← hnil]
    exact Or.inr ⟨"", by rw [hsame, String.append_empty]⟩
  rw [List.concat_eq_append] at hparts
  have hnames : p.parent.parts = names := by rw [parent, hparts, List.dropLast_concat]
  have hroot : p.parent.root = p.root := rfl
  have hrest : ∃ rest, p.root ++ "/".intercalate p.parts =
      p.root ++ "/".intercalate names ++ rest := by
    rw [hparts]
    cases names with
    | nil => exact ⟨name, by simp⟩
    | cons first names =>
      refine ⟨"/" ++ name, ?_⟩
      rw [String.intercalate_append_of_ne_nil (by simp) (by simp), String.intercalate_singleton]
      simp only [String.append_assoc]
  obtain ⟨rest, hrest⟩ := hrest
  by_cases hempty : p.root ++ "/".intercalate names = ""
  · exact Or.inl (toString_of_empty (by rw [hnames, hroot, hempty]))
  · refine Or.inr ⟨rest, ?_⟩
    have hne : p.root ++ "/".intercalate p.parts ≠ "" := by
      rw [hrest]
      exact fun h => hempty (String.append_eq_empty_iff.mp h).1
    rw [toString_of_ne hne, hrest, toString_of_ne (by rwa [hnames, hroot]), hnames, hroot]

end Path

namespace Disk

variable {d : Disk} {p : Path} {here place folder : Place} {names : List String}

/-! ### Paths that are not walked -/

theorem pathFault?_eq_zero_iff :
    pathFault? p = some .zeroCharacter ↔ '\x00' ∈ p.toString.toList := by
  unfold pathFault?
  simp

theorem pathFault?_eq_none_iff : pathFault? p = none ↔
    '\x00' ∉ p.toString.toList ∧ p.toString.utf8ByteSize ≤ pathLimit := by
  unfold pathFault?
  split_ifs with hzero hlong
  · simp [List.contains_iff_mem.mp hzero]
  · simp [hlong]
  · exact iff_of_true rfl ⟨by simpa using hzero, Nat.not_lt.mp hlong⟩

/-- If a path can be walked, so can that of its folder. -/
theorem pathFault?_parent (h : pathFault? p = none) : pathFault? p.parent = none := by
  rw [pathFault?_eq_none_iff] at h ⊢
  rcases p.toString_parent with hdot | ⟨rest, hrest⟩
  · rw [hdot]
    decide
  · rw [hrest, String.toList_append, List.mem_append, String.utf8ByteSize_append] at h
    exact ⟨fun hzero => h.1 (Or.inl hzero), by omega⟩

theorem zeroFree_parent (h : pathFault? p ≠ some .zeroCharacter) :
    pathFault? p.parent ≠ some .zeroCharacter := by
  rw [ne_eq, pathFault?_eq_zero_iff, Path.mem_toString (by decide) (by decide)] at h ⊢
  rintro (hroot | ⟨part, hpart, hzero⟩)
  · exact h (Or.inl hroot)
  · exact h (Or.inr ⟨part, List.dropLast_subset _ hpart, hzero⟩)

/-! ### Looking for a path -/

/-- The refusals of looking for a path. -/
theorem walk_error {refusal : Refusal} (h : d.walk here names = .error refusal) :
    refusal = .missing ∨ refusal = .notFolder ∨ refusal = .nameTooLong := by
  induction names generalizing here with
  | nil => cases h
  | cons name names ih =>
    rw [walk] at h
    split at h
    · cases h
      exact Or.inl rfl
    · split_ifs at h
      · exact ih h
      · cases h
        exact Or.inr (Or.inr rfl)
      · exact ih h
    · cases h
      exact Or.inr (Or.inl rfl)

theorem place_error {refusal : Refusal} (h : d.place p = .error refusal) :
    refusal = .missing ∨ refusal = .notFolder ∨ refusal = .nameTooLong ∨
      refusal = .zeroCharacter ∧ pathFault? p = some .zeroCharacter := by
  unfold place at h
  split at h
  · next hfault =>
    cases h
    unfold pathFault? at hfault ⊢
    split_ifs at hfault ⊢
    · cases hfault
      exact Or.inr (Or.inr (Or.inr ⟨rfl, rfl⟩))
    · cases hfault
      exact Or.inr (Or.inr (Or.inl rfl))
  · rcases walk_error h with h | h | h
    · exact Or.inl h
    · exact Or.inr (Or.inl h)
    · exact Or.inr (Or.inr (Or.inl h))

theorem find_error {refusal : Refusal} (h : d.find p = .error refusal) :
    refusal = .missing ∨ refusal = .notFolder ∨ refusal = .zeroCharacter ∨
      refusal = .nameTooLong := by
  unfold find at h
  split at h
  · next hplace =>
    cases h
    rcases place_error hplace with h | h | h | ⟨h, -⟩
    · exact Or.inl h
    · exact Or.inr (Or.inl h)
    · exact Or.inr (Or.inr (Or.inr h))
    · exact Or.inr (Or.inr (Or.inl h))
  · split at h
    · cases h
    · cases h
      exact Or.inl rfl

/-- Whether something stands at the end of a path cannot be told only if the path is too long. -/
theorem exists?_cases (d : Disk) (p : Path) :
    (d.exists? p = .ok true ∧ ∃ e, d.find p = .ok e) ∨
    (d.exists? p = .ok false ∧ ∃ refusal, d.find p = .error refusal ∧ refusal ≠ .nameTooLong) ∨
    (d.exists? p = .error { refusal := .nameTooLong, path := p.toString } ∧
      d.find p = .error .nameTooLong) := by
  unfold exists?
  cases hfind : d.find p with
  | ok e => exact Or.inl ⟨rfl, e, rfl⟩
  | error refusal =>
    rcases find_error hfind with rfl | rfl | rfl | rfl
    · exact Or.inr (Or.inl ⟨rfl, _, rfl, by decide⟩)
    · exact Or.inr (Or.inl ⟨rfl, _, rfl, by decide⟩)
    · exact Or.inr (Or.inl ⟨rfl, _, rfl, by decide⟩)
    · exact Or.inr (Or.inr ⟨rfl, rfl⟩)

/-! ### Folders above a place -/

/-- Folders stand above a place. -/
def FoldersAbove (d : Disk) (p : Place) : Prop :=
  ∀ q, q <+: p → q ≠ p → d.entry? q = some .folder

theorem foldersAbove_start (d : Disk) (p : Path) :
    d.FoldersAbove (d.start p) ∧ d.entry? (d.start p) = some .folder := by
  have hhome : ∀ q, q <+: d.home → d.entry? q = some .folder := fun q hq => by
    rw [ entry?, if_pos (List.isPrefixOf_iff_prefix.mpr hq)]
  unfold start
  split_ifs
  · exact ⟨fun q hq _ => hhome q hq, hhome _ (List.prefix_refl _)⟩
  · exact ⟨fun q hq hne => absurd (List.prefix_nil.mp hq) hne, hhome _ List.nil_prefix⟩

/-- A way goes down from folders and back up to them. -/
theorem foldersAbove_walk (habove : d.FoldersAbove here) (h : d.walk here names = .ok place) :
    d.FoldersAbove place := by
  induction names generalizing here with
  | nil =>
    cases h
    exact habove
  | cons name names ih =>
    rw [walk] at h
    split at h
    · cases h
    · next hhere =>
      have hwithin : ∀ q, q <+: here → d.entry? q = some .folder := fun q hq => by
        by_cases hsame : q = here
        · rw [hsame, hhere]
        · exact habove q hq hsame
      split_ifs at h
      · exact ih (fun q hq _ => hwithin q (hq.trans (List.dropLast_prefix here))) h
      · refine ih (fun q hq hne => hwithin q ?_) h
        exact (List.prefix_concat_iff.mp hq).resolve_left hne
    · cases h

/-- The end of a path that is no folder lies in one, and the path ends in its name. -/
theorem folder_of_place (hparts : "" ∉ p.parts) (hplace : d.place p = .ok place)
    (hfile : d.entry? place ≠ some .folder) :
    ∃ folder, d.place p.parent = .ok folder ∧ d.entry? folder = some .folder ∧
      p.endsInName = true := by
  obtain ⟨hfault, hway⟩ := place_ok_iff.mp hplace
  obtain ⟨habove, hstart⟩ := foldersAbove_start d p
  rcases List.eq_nil_or_concat p.parts with hnil | ⟨names, name, hlast⟩
  · rw [hnil] at hway
    cases hway
    exact absurd hstart hfile
  rw [List.concat_eq_append] at hlast
  rw [hlast, walk_append] at hway
  cases hfront : d.walk (d.start p) names with
  | error refusal =>
    rw [hfront] at hway
    cases hway
  | ok folder =>
    rw [hfront] at hway
    change d.walk folder [name] = .ok place at hway
    have hfolder : d.entry? folder = some .folder := by
      rw [walk] at hway
      split at hway
      · cases hway
      · assumption
      · cases hway
    have hname : p.name = name := by simp [Path.name, hlast]
    have hparent : d.place p.parent = .ok folder := by
      refine place_ok_iff.mpr ⟨pathFault?_parent hfault, ?_⟩
      change d.walk (d.start p) p.parts.dropLast = .ok folder
      rw [hlast, List.dropLast_concat, hfront]
    -- two dots lead up to a folder again
    have hup : name ≠ ".." := by
      rintro rfl
      rw [walk_last hfolder, if_pos BEq.rfl] at hway
      cases hway
      by_cases hroot : folder.dropLast = folder
      · exact hfile (by rw [hroot, hfolder])
      · exact hfile (foldersAbove_walk habove hfront _ (List.dropLast_prefix folder) hroot)
    have hempty : name ≠ "" := by
      rintro rfl
      exact hparts (by simp [hlast])
    exact ⟨folder, hparent, hfolder, by simp [Path.endsInName, hname, hup, hempty]⟩

end Disk

/-! ### Writing in place and swapping -/

section Writing

open Disk

variable {d d' : Disk} {target : Path} {place folder : Place} {bytes : List UInt8} {fault : Fault}

theorem isSystem_iff {refusal : Refusal} : refusal.isSystem = true ↔ refusal ≠ .zeroCharacter := by
  cases refusal <;> decide

/-- Nothing on the disk is kept from being read and written. -/
def Disk.Open (d : Disk) : Prop := ∀ p, d.entry? p ≠ some .sealed

/-- **A file is written** where its path leads, unless a folder stands there. -/
theorem write_eq_ok_iff (hopen : d.Open) : d.write target bytes = .ok d' ↔
    ∃ place, d.place target = .ok place ∧ d.entry? place ≠ some .folder ∧
      d' = d.put place (.file bytes) := by
  unfold write
  cases hplace : d.place target with
  | error refusal => simp
  | ok place =>
    have hsealed := hopen place
    dsimp only
    cases hentry : d.entry? place with
    | none => simp [eq_comm, hentry]
    | some e =>
      cases e with
      | folder => simp [hentry]
      | file old => simp [eq_comm, hentry]
      | sealed => exact absurd hentry hsealed

theorem write_zero (h : pathFault? target = some .zeroCharacter) :
    d.write target bytes = .error { refusal := .zeroCharacter, path := target.toString } := by
  simp only [write, Disk.place, h]

/-- The system refuses to write, unless there is a zero character in the path. -/
theorem write_isSystem (hzero : pathFault? target ≠ some .zeroCharacter)
    (h : d.write target bytes = .error fault) : fault.refusal.isSystem = true := by
  unfold write at h
  split at h
  · next refusal hplace =>
    cases h
    rcases place_error hplace with h | h | h | ⟨-, h⟩
    · rw [h]
      rfl
    · rw [h]
      rfl
    · rw [h]
      rfl
    · exact absurd h hzero
  · split at h <;> cases h <;> rfl

/-- What is written stands at the end of the path. -/
theorem find_of_write (hopen : d.Open) (hparts : "" ∉ target.parts)
    (h : d.write target bytes = .ok d') : d'.find target = .ok (.file bytes) := by
  obtain ⟨place, hplace, hfile, rfl⟩ := (write_eq_ok_iff hopen).mp h
  obtain ⟨folder, hparent, hfolder, -⟩ := folder_of_place hparts hplace hfile
  exact (find_of_put hparent hfolder hplace hfile).2

namespace Swap

/-- The path of the temporary file beside a target. -/
def temporaryPath (d : Disk) (folder : Place) (target : Path) : Path :=
  { target.parent with parts := target.parent.parts ++ [freeName d folder target] }

theorem exists_freeName (d : Disk) (folder : Place) (target : Path) :
    ∃ n, freeName d folder target = temporaryName target n := by
  unfold freeName
  dsimp only
  cases hfree : (List.map (temporaryName target) (List.range (d.entries.length + 2))).find?
      fun name => (d.entry? (folder ++ [name])).isNone with
  | none => exact ⟨0, rfl⟩
  | some name =>
    obtain ⟨n, -, hn⟩ := List.mem_map.mp (List.mem_of_find?_eq_some hfree)
    exact ⟨n, hn.symm⟩

theorem zero_not_mem_temporaryName {n : ℕ} (h : '\x00' ∉ target.name.toList) :
    '\x00' ∉ (temporaryName target n).toList := by
  rw [toList_temporaryName, paddedDigits]
  intro hmem
  have hdigits : '\x00' ∉ Nat.toDigits 10 n := fun hzero =>
    absurd (Nat.isDigit_of_mem_toDigits (by decide) (by decide) hzero) (by decide)
  simp [h, hdigits] at hmem

/-- There is no zero character in the temporary path if there is none in that of the target. -/
theorem zeroFree_temporaryPath (h : pathFault? target ≠ some .zeroCharacter) :
    pathFault? (temporaryPath d folder target) ≠ some .zeroCharacter := by
  rw [ne_eq, pathFault?_eq_zero_iff, Path.mem_toString (by decide) (by decide)] at h ⊢
  obtain ⟨n, hn⟩ := exists_freeName d folder target
  have hname : '\x00' ∉ target.name.toList := fun hzero => by
    rcases List.eq_nil_or_concat target.parts with hnil | ⟨names, name, hlast⟩
    · simp [Path.name, hnil] at hzero
    · exact h (Or.inr ⟨name, by simp [hlast], by simpa [Path.name, hlast] using hzero⟩)
  rintro (hroot | ⟨part, hpart, hzero⟩)
  · exact h (Or.inl hroot)
  · rcases List.mem_append.mp hpart with hpart | hpart
    · exact h (Or.inr ⟨part, List.dropLast_subset _ hpart, hzero⟩)
    · rw [List.mem_singleton.mp hpart, hn] at hzero
      exact zero_not_mem_temporaryName hname hzero

end Swap

/-- There is room for the target and none for the temporary file: its name is too long, or its path
is. -/
structure NoRoom (d : Disk) (target : Path) (folder last : Place) : Prop where
  parent : d.place target.parent = .ok folder
  place : d.place target = .ok last
  free : d.entry? last ≠ some .folder
  long : nameLimit < (Swap.freeName d folder target).utf8ByteSize ∨
    pathFault? (Swap.temporaryPath d folder target) ≠ none

theorem swap_zero (h : pathFault? target = some .zeroCharacter) :
    (swap {} d target bytes).fault =
      some { refusal := .zeroCharacter, path := target.toString } := by
  rw [swap, if_pos (by rw [h]; rfl)]

/-- The system refuses a swap, unless there is a zero character in the path. -/
theorem swap_isSystem (hzero : pathFault? target ≠ some .zeroCharacter)
    (h : (swap {} d target bytes).fault = some fault) : fault.refusal.isSystem = true := by
  have hstart : ¬ (pathFault? target == some Refusal.zeroCharacter) = true := by simpa using hzero
  have hplace : ∀ {p : Path} {refusal : Refusal}, pathFault? p ≠ some .zeroCharacter →
      d.place p = .error refusal → refusal.isSystem = true := fun hp hrefusal => by
    rcases place_error hrefusal with rfl | rfl | rfl | ⟨-, h⟩
    · rfl
    · rfl
    · rfl
    · exact absurd h hp
  rw [swap, if_neg hstart] at h
  split at h
  · next hparent =>
    cases h
    exact hplace (zeroFree_parent hzero) hparent
  · next folder hparent =>
    split at h
    · unfold Swap.inFolder at h
      simp only [Option.none_or] at h
      split at h
      · next refusal hcreate =>
        cases h
        rw [isSystem_iff]
        rintro rfl
        split_ifs at hcreate
        · cases hcreate
        · exact Swap.zeroFree_temporaryPath hzero hcreate
      · cases htarget : d.place target with
        | error refusal =>
          rw [htarget] at h
          cases h
          exact hplace hzero htarget
        | ok place =>
          rw [htarget] at h
          dsimp only at h
          split_ifs at h <;> cases h <;> rfl
    · cases h
      rfl
    · cases h
      rfl

/-- **What is written can be swapped in**, and that leaves the same disk; unless there is no room
for the temporary file. -/
theorem swap_of_write (hopen : d.Open) (hparts : "" ∉ target.parts)
    (h : d.write target bytes = .ok d') (hroom : ∀ folder place, ¬ NoRoom d target folder place) :
    (swap {} d target bytes).fault = none ∧ (swap {} d target bytes).disk d = d' := by
  obtain ⟨place, hplace, hfile, rfl⟩ := (write_eq_ok_iff hopen).mp h
  obtain ⟨folder, hparent, hfolder, hends⟩ := folder_of_place hparts hplace hfile
  have hlong : ¬ (nameLimit < (Swap.freeName d folder target).utf8ByteSize ∨
      pathFault? (Swap.temporaryPath d folder target) ≠ none) := fun hlong =>
    hroom folder place ⟨hparent, hplace, hfile, hlong⟩
  rw [not_or, ne_eq, not_not] at hlong
  have hfault : (swap {} d target bytes).fault = none := by
    have hstart : ¬ (pathFault? target == some Refusal.zeroCharacter) = true := by
      rw [(place_ok_iff.mp hplace).1]
      decide
    have hbeside := hlong.2
    unfold Swap.temporaryPath at hbeside
    rw [swap, if_neg hstart, hparent]
    simp only [hfolder, Swap.inFolder, if_neg hlong.1, hbeside, hplace, hends, Option.none_or]
    simp [hfile]
  refine ⟨hfault, ?_⟩
  have hswapped := swapped_swap {} d target bytes
  unfold Swap.disk
  generalize swap {} d target bytes = s at hswapped hfault
  cases hswapped with
  | failed => cases hfault
  | done _ _ _ _ _ _ hplace' _ hend =>
    obtain rfl := Except.ok.inj (hplace.symm.trans hplace')
    exact hend

theorem write_of_swap (hopen : d.Open) (h : (swap {} d target bytes).fault = none) :
    ∃ d', d.write target bytes = .ok d' := by
  have hswapped := swapped_swap {} d target bytes
  generalize swap {} d target bytes = s at hswapped h
  cases hswapped with
  | failed => cases h
  | done _ _ _ _ _ _ hplace hfile _ =>
    exact ⟨_, (write_eq_ok_iff hopen).mpr ⟨_, hplace, hfile, rfl⟩⟩

/-- Without room for the temporary file a swap fails where a file can be written. -/
theorem fault_of_noRoom (hopen : d.Open) (h : NoRoom d target folder place) :
    (∃ d', d.write target bytes = .ok d') ∧ (swap {} d target bytes).fault.isSome := by
  refine ⟨⟨_, (write_eq_ok_iff hopen).mpr ⟨place, h.place, h.free, rfl⟩⟩, ?_⟩
  have hstart : ¬ (pathFault? target == some Refusal.zeroCharacter) = true := by
    rw [(place_ok_iff.mp h.place).1]
    decide
  rw [swap, if_neg hstart, h.parent]
  dsimp only
  split
  · have hlong : ∃ refusal, (if nameLimit < (Swap.freeName d folder target).utf8ByteSize then
        some Refusal.nameTooLong else none).or
          (pathFault? (Swap.temporaryPath d folder target)) = some refusal := by
      rw [← Option.isSome_iff_exists, Option.isSome_or, Bool.or_eq_true]
      rcases h.long with hname | hpath
      · exact Or.inl (by rw [if_pos hname]; rfl)
      · exact Or.inr (Option.isSome_iff_ne_none.mpr hpath)
    obtain ⟨refusal, hrefusal⟩ := hlong
    unfold Swap.temporaryPath at hrefusal
    unfold Swap.inFolder
    simp only [Option.none_or, hrefusal]
    rfl
  · rfl
  · rfl

end Writing

end Scrawl.File
