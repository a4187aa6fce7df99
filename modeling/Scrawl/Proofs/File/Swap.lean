import Mathlib.Data.List.Nodup
import Mathlib.Data.List.Perm.Subperm
import Scrawl.File.Swap

/-!
# Scrawl.Proofs.File.Swap — what a swap leaves on a disk

A swap works on a file under a free name beside its target, and that file is gone at its end.  So a
swap that fails leaves the disk as it was, and one that does not fail leaves it with the new file in
the place of the target and nothing else changed.  On the way there is nothing else on the disk but
the free name, which no other path leads to or through.

* `Disk.place_eq`: the way to a path whose folder stands goes by folders only.
* `Swap.freeName_free`: a free name can always be found.
* `swap_cases`, `swap_beside`: the disk at the end of a swap, and the disks on the way.
* `find_of_swap`, `find_of_beside`: what stands at the end of the target's path.
-/

namespace Scrawl.File

namespace Disk

variable {d d' : Disk} {p q : Place} {e e' : Entry}

/-! ### What stands at places -/

theorem lookup_filter_ne {l : List (Place × Entry)} (h : q ≠ p) :
    (l.filter (·.1 != p)).lookup q = l.lookup q := by
  induction l with
  | nil => rfl
  | cons x l ih =>
    by_cases hx : x.1 = p
    · have hq : (q == x.1) = false := by simpa [hx] using h
      rw [List.filter_cons_of_neg (by simp [hx]), ih, List.lookup_cons, hq]
    · rw [List.filter_cons_of_pos (by simp [hx]), List.lookup_cons, List.lookup_cons, ih]

@[simp] theorem home_put : (d.put p e).home = d.home := rfl

theorem stands_put_of_ne (h : q ≠ p) : Disk.entry? (d.put p e) q = d.entry? q := by
  have hlookup : (d.put p e).entries.lookup q = d.entries.lookup q := by
    rw [put, List.lookup_cons, beq_false_of_ne h]
    exact lookup_filter_ne h
  unfold entry?
  rw [hlookup, home_put]

/-- What is put at a place stands there, unless the working folder lies there or below. -/
theorem stands_put_self (h : d.entry? p ≠ some .folder) : Disk.entry? (d.put p e) p = some e := by
  have hhome : ¬ p.isPrefixOf d.home := fun hp => h (if_pos hp)
  unfold entry?
  rw [home_put, if_neg hhome, put, List.lookup_cons, BEq.rfl]

/-- Where nothing stands nothing is taken away. -/
theorem erase_of_free (h : d.entry? p = none) : d.erase p = d := by
  have hnone : d.entries.lookup p = none := by
    unfold entry? at h
    split_ifs at h
    exact h
  have hall : d.entries.filter (·.1 != p) = d.entries := by
    refine List.filter_eq_self.mpr fun x hx => ?_
    rw [bne_comm]
    exact List.lookup_eq_none_iff.mp hnone x hx
  rw [erase, hall]

/-- What is put where nothing stood can be taken away again. -/
theorem erase_put (h : d.entry? p = none) : (d.put p e).erase p = d := by
  have hput : (d.put p e).erase p = (d.erase p).erase p := by
    simp [put, erase]
  rw [hput, erase_of_free h, erase_of_free h]

theorem erase_put_put (h : d.entry? p = none) (hne : q ≠ p) :
    ((d.put p e).put q e').erase p = d.put q e' := by
  have hswap : ((d.put p e).put q e').erase p = ((d.put p e).erase p).put q e' := by
    simp [put, erase, hne, List.filter_filter, Bool.and_comm]
  rw [hswap, erase_put h]

/-! ### Ways -/

theorem walk_append (d : Disk) (here : Place) (names more : List String) :
    d.walk here (names ++ more) = d.walk here names >>= fun p => d.walk p more := by
  induction names generalizing here with
  | nil => rfl
  | cons name names ih =>
    rw [List.cons_append, walk, walk]
    split
    · rfl
    · split_ifs
      · exact ih _
      · rfl
      · exact ih _
    · rfl

/-- The last step of a way. -/
theorem walk_last (h : d.entry? p = some .folder) (name : String) :
    d.walk p [name] = if name == ".." then .ok p.dropLast
      else if nameLimit < name.utf8ByteSize then .error .nameTooLong else .ok (p ++ [name]) := by
  rw [walk, h]
  rfl

/-- The folders of a disk stand on another one, too. -/
structure KeepsFolders (d d' : Disk) : Prop where
  home : d'.home = d.home
  folder : ∀ p, d.entry? p = some .folder → d'.entry? p = some .folder

theorem keepsFolders_put (h : d.entry? p ≠ some .folder) : d.KeepsFolders (d.put p e) where
  home := rfl
  folder q hq := by
    have hne : q ≠ p := by
      rintro rfl
      exact h hq
    rw [stands_put_of_ne hne]
    exact hq

/-- A way goes through folders. -/
theorem walk_of_keepsFolders (h : d.KeepsFolders d') {here : Place} {names : List String}
    (hwalk : d.walk here names = .ok p) : d'.walk here names = .ok p := by
  induction names generalizing here with
  | nil => exact hwalk
  | cons name names ih =>
    rw [walk] at hwalk ⊢
    split at hwalk
    · cases hwalk
    · next hhere =>
      rw [h.folder _ hhere]
      dsimp only
      split_ifs at hwalk ⊢
      · exact ih hwalk
      · exact ih hwalk
    · cases hwalk

/-- The place from which a path goes out. -/
def start (d : Disk) (target : Path) : Place := if target.root.isEmpty then d.home else []

theorem place_ok_iff {target : Path} : d.place target = .ok p ↔
    pathFault? target = none ∧ d.walk (d.start target) target.parts = .ok p := by
  unfold place start
  cases pathFault? target <;> simp

variable {target : Path} {folder place : Place}

/-- If the folder of a path stands, the way to its end is the same wherever the folders are. -/
theorem place_eq (h : d.KeepsFolders d') (hparent : d.place target.parent = .ok folder)
    (hfolder : d.entry? folder = some .folder) : d'.place target = d.place target := by
  have hstart : d'.start target = d.start target := by rw [start, start, h.home]
  have hwalk : d'.walk (d.start target) target.parts = d.walk (d.start target) target.parts := by
    obtain ⟨-, hway⟩ := place_ok_iff.mp hparent
    change d.walk (d.start target) target.parts.dropLast = .ok folder at hway
    rcases List.eq_nil_or_concat target.parts with hnil | ⟨names, name, hparts⟩
    · rw [hnil]
      rfl
    · rw [hparts, List.concat_eq_append, List.dropLast_concat] at hway
      rw [hparts, List.concat_eq_append, walk_append, walk_append, hway,
        walk_of_keepsFolders h hway]
      change d'.walk folder [name] = d.walk folder [name]
      rw [walk_last hfolder, walk_last (h.folder _ hfolder)]
  unfold place
  cases pathFault? target with
  | some refusal => rfl
  | none =>
    change d'.walk (d'.start target) target.parts = d.walk (d.start target) target.parts
    rw [hstart, hwalk]

/-- The end of a path is in its folder under the name of the path, or not below that folder. -/
theorem place_cases (hparent : d.place target.parent = .ok folder)
    (hfolder : d.entry? folder = some .folder) (hplace : d.place target = .ok place) :
    place = folder ++ [target.name] ∨ place.length ≤ folder.length := by
  obtain ⟨-, hway⟩ := place_ok_iff.mp hparent
  obtain ⟨-, hwhole⟩ := place_ok_iff.mp hplace
  change d.walk (d.start target) target.parts.dropLast = .ok folder at hway
  rcases List.eq_nil_or_concat target.parts with hnil | ⟨names, name, hparts⟩
  · rw [hnil] at hway hwhole
    have heq : folder = place := Except.ok.inj (hway.symm.trans hwhole)
    exact Or.inr (heq ▸ Nat.le_refl _)
  · have hname : target.name = name := by simp [Path.name, hparts]
    rw [hparts, List.concat_eq_append, List.dropLast_concat] at hway
    rw [hparts, List.concat_eq_append, walk_append, hway] at hwhole
    change d.walk folder [name] = .ok place at hwhole
    rw [walk_last hfolder] at hwhole
    split_ifs at hwhole
    · cases hwhole
      exact Or.inr (by simp)
    · cases hwhole
      exact Or.inl (by rw [hname])

/-- No path ends in its folder under another name than its own. -/
theorem place_ne (hparent : d.place target.parent = .ok folder)
    (hfolder : d.entry? folder = some .folder) (hplace : d.place target = .ok place)
    {name : String} (hname : name ≠ target.name) : place ≠ folder ++ [name] := by
  rintro rfl
  rcases place_cases hparent hfolder hplace with heq | hle
  · exact hname (by simpa using heq)
  · rw [List.length_append, List.length_singleton] at hle
    omega

end Disk

namespace Swap

open Disk

variable {d : Disk} {target : Path} {folder place : Place}

/-! ### Names that are free -/

/-- The digits of a temporary name. -/
def paddedDigits (n : ℕ) : List Char :=
  List.replicate (nameDigits - (toString n).length) '0' ++ Nat.toDigits 10 n

theorem toList_temporaryName (target : Path) (n : ℕ) : (temporaryName target n).toList =
    '.' :: (target.name.toList ++ '.' :: (paddedDigits n ++ ".tmp".toList)) := by
  simp [temporaryName, paddedDigits]

/-- Zeros in front of a number do not count. -/
theorem ofDigitChars_paddedDigits (n : ℕ) : Nat.ofDigitChars 10 (paddedDigits n) 0 = n := by
  have hzeros : ∀ k (cs : List Char),
      Nat.ofDigitChars 10 (List.replicate k '0' ++ cs) 0 = Nat.ofDigitChars 10 cs 0 := by
    intro k cs
    induction k with
    | zero => rfl
    | succ k ih => exact ih
  rw [paddedDigits, hzeros, Nat.ofDigitChars_ten_toDigits]

theorem temporaryName_injective (target : Path) : Function.Injective (temporaryName target) := by
  intro m n h
  have hchars := congrArg String.toList h
  rw [toList_temporaryName, toList_temporaryName] at hchars
  have hdigits : paddedDigits m = paddedDigits n := by simpa using hchars
  rw [← ofDigitChars_paddedDigits m, hdigits, ofDigitChars_paddedDigits]

theorem temporaryName_ne (target : Path) (n : ℕ) : temporaryName target n ≠ target.name := by
  intro h
  have hlength := congrArg List.length (congrArg String.toList h)
  rw [toList_temporaryName] at hlength
  simp only [List.length_cons, List.length_append] at hlength
  omega

/-- A place at which something stands has an entry or lies on the way to the working folder. -/
theorem mem_of_stands {p : Place} (h : d.entry? p ≠ none) :
    p ∈ d.home.take p.length :: d.entries.map (·.1) := by
  unfold entry? at h
  split_ifs at h with hhome
  · obtain ⟨rest, hrest⟩ := List.isPrefixOf_iff_prefix.mp hhome
    rw [← hrest, List.take_left]
    exact List.mem_cons_self
  · refine List.mem_cons_of_mem _ ?_
    by_contra hnone
    refine h (List.lookup_eq_none_iff.mpr fun x hx => ?_)
    simp only [bne_iff_ne]
    rintro rfl
    exact hnone (List.mem_map_of_mem hx)

/-- There are more temporary names than something can stand at in one folder. -/
theorem exists_free (d : Disk) (folder : Place) (target : Path) :
    ∃ n < d.entries.length + 2, d.entry? (folder ++ [temporaryName target n]) = none := by
  by_contra hnone
  push Not at hnone
  let places := (List.range (d.entries.length + 2)).map fun n => folder ++ [temporaryName target n]
  have hnodup : places.Nodup := by
    refine List.nodup_range.map fun m n h => temporaryName_injective target ?_
    simpa using h
  have hsub : places ⊆ d.home.take (folder.length + 1) :: d.entries.map (·.1) := by
    intro p hp
    obtain ⟨n, hn, rfl⟩ := List.mem_map.mp hp
    have hmem := mem_of_stands (hnone n (List.mem_range.mp hn))
    rwa [List.length_append] at hmem
  have hle := (List.subperm_of_subset hnodup hsub).length_le
  simp [places] at hle

/-- **The temporary name is free** and not the name of the target. -/
theorem freeName_free (d : Disk) (folder : Place) (target : Path) :
    d.entry? (folder ++ [freeName d folder target]) = none ∧
      freeName d folder target ≠ target.name := by
  let free : String → Bool := fun name => (d.entry? (folder ++ [name])).isNone
  let names := (List.range (d.entries.length + 2)).map (temporaryName target)
  have hsome : (names.find? free).isSome := by
    obtain ⟨n, hn, hfree⟩ := exists_free d folder target
    refine List.find?_isSome.mpr ⟨temporaryName target n, ?_, by simp [free, hfree]⟩
    exact List.mem_map_of_mem (List.mem_range.mpr hn)
  obtain ⟨name, hname⟩ := Option.isSome_iff_exists.mp hsome
  have heq : freeName d folder target = name := by
    change (names.find? free).getD _ = name
    rw [hname]
    rfl
  obtain ⟨n, -, hn⟩ := List.mem_map.mp (List.mem_of_find?_eq_some hname)
  have hfree := List.find?_some hname
  refine ⟨?_, ?_⟩
  · rw [heq]
    simpa [free] using hfree
  · rw [heq, ← hn]
    exact temporaryName_ne target n

end Swap

/-! ### The disks of a swap -/

section Disks

open Disk Swap

variable {hindrance : Hindrance} {d d' : Disk} {target : Path} {bytes : List UInt8} {s : Swap}

/-- A disk on the way of a swap: beside the target there is a file under a free name. -/
def Beside (d : Disk) (target : Path) (d' : Disk) : Prop :=
  ∃ folder name bytes, d.place target.parent = .ok folder ∧ d.entry? folder = some .folder ∧
    d.entry? (folder ++ [name]) = none ∧ name ≠ target.name ∧
      d' = d.put (folder ++ [name]) (.file bytes)

/-- What can become of a swap. -/
inductive Swapped (hindrance : Hindrance) (d : Disk) (target : Path) (bytes : List UInt8) :
    Swap → Prop
  /-- It fails, and the disk is as it was. -/
  | failed {passed : List Disk} {fault : Fault}
      (hpassed : ∀ d' ∈ passed.dropLast, Beside d target d')
      (hend : passed.getLastD d = d) : Swapped hindrance d target bytes ⟨passed, some fault⟩
  /-- Nothing is made to fail, and the file stands in the place of the target. -/
  | done {passed : List Disk} {folder place : Place}
      (hcreate : hindrance.create = none) (hwrite : hindrance.write = none)
      (hrename : hindrance.rename = none)
      (hpassed : ∀ d' ∈ passed.dropLast, Beside d target d')
      (hparent : d.place target.parent = .ok folder) (hfolder : d.entry? folder = some .folder)
      (hplace : d.place target = .ok place) (hfile : d.entry? place ≠ some .folder)
      (hend : passed.getLastD d = d.put place (.file bytes)) :
      Swapped hindrance d target bytes ⟨passed, none⟩

theorem swapped_refused (fault : Fault) :
    Swapped hindrance d target bytes { passed := [], fault := some fault } :=
  .failed (by simp) rfl

/-- A swap into a folder goes its way beside the target. -/
theorem swapped_inFolder {folder : Place} (hparent : d.place target.parent = .ok folder)
    (hfolder : d.entry? folder = some .folder) :
    Swapped hindrance d target bytes (inFolder hindrance d folder target bytes) := by
  obtain ⟨hfree, hname⟩ := freeName_free d folder target
  let temporary := folder ++ [freeName d folder target]
  have hbeside : ∀ bs, Beside d target (d.put temporary (.file bs)) := fun bs =>
    ⟨folder, _, bs, hparent, hfolder, hfree, hname, rfl⟩
  have hgone : ∀ bs, (d.put temporary (.file bs)).erase temporary = d := fun bs => erase_put hfree
  have hway : ∀ bs last, ∀ d' ∈ [d.put temporary (.file []), d.put temporary (.file bs),
      last].dropLast, Beside d target d' := by
    intro bs last d' hd'
    have hcases : d' = d.put temporary (.file []) ∨ d' = d.put temporary (.file bs) := by
      simpa using hd'
    rcases hcases with rfl | rfl
    · exact hbeside []
    · exact hbeside bs
  -- once the temporary file stands, a swap that fails takes it away again
  have hfailed : ∀ bs last fault, last = d → Swapped hindrance d target bytes
      ⟨[d.put temporary (.file []), d.put temporary (.file bs), last], some fault⟩ :=
    fun bs last fault hlast => .failed (hway bs last) hlast
  unfold inFolder
  dsimp only
  split
  · exact swapped_refused _
  · next hstart =>
    have hcreate : hindrance.create = none := (Option.or_eq_none_iff.mp hstart).1
    cases hwrite : hindrance.write with
    | some w => exact hfailed _ _ _ (hgone [])
    | none =>
      cases hrename : hindrance.rename with
      | some refusal => exact hfailed _ _ _ (hgone bytes)
      | none =>
        cases hplace : d.place target with
        | error refusal => exact hfailed _ _ _ (hgone bytes)
        | ok place =>
          dsimp only
          split_ifs with hends hfile
          · exact hfailed _ _ _ (hgone bytes)
          · exact hfailed _ _ _ (hgone bytes)
          · have hne : place ≠ temporary := place_ne hparent hfolder hplace hname
            have hfile' : d.entry? place ≠ some .folder := by simpa using hfile
            exact .done hcreate hwrite hrename (hway bytes _) hparent hfolder hplace hfile'
              (erase_put_put hfree hne)

/-- **A swap is done or leaves nothing behind.**  On its way there is nothing else on the disk but a
file under a free name beside the target. -/
theorem swapped_swap (hindrance : Hindrance) (d : Disk) (target : Path) (bytes : List UInt8) :
    Swapped hindrance d target bytes (swap hindrance d target bytes) := by
  unfold swap
  split_ifs
  · exact swapped_refused _
  · cases hparent : d.place target.parent with
    | error refusal => exact swapped_refused _
    | ok folder =>
      dsimp only
      cases hfolder : d.entry? folder with
      | none => exact swapped_refused _
      | some e =>
        cases e with
        | folder => exact swapped_inFolder hparent hfolder
        | file bytes => exact swapped_refused _
        | sealed => exact swapped_refused _

theorem beside_of_mem (h : Swapped hindrance d target bytes s) (hd : d' ∈ s.passed.dropLast) :
    Beside d target d' := by
  cases h with
  | failed hpassed => exact hpassed d' hd
  | done _ _ _ hpassed => exact hpassed d' hd

/-! ### What stands at the end of the target's path -/

theorem find_of_place {place : Place} (h : d.place target = .ok place) :
    d.find target = match d.entry? place with
      | some e => .ok e
      | none => .error .missing := by
  cases hentry : d.entry? place <;> simp only [find, h, hentry]

/-- **On the way of a swap the target is as it was**, and so is every place but one, at which
nothing stood. -/
theorem find_of_beside (h : Beside d target d') : d'.find target = d.find target ∧
    ∃ place, d.entry? place = none ∧ ∀ p ≠ place, d'.entry? p = d.entry? p := by
  obtain ⟨folder, name, bs, hparent, hfolder, hfree, hname, rfl⟩ := h
  have hkeep : d.KeepsFolders (d.put (folder ++ [name]) (.file bs)) :=
    keepsFolders_put (by simp [hfree])
  have heq := place_eq hkeep hparent hfolder
  refine ⟨?_, folder ++ [name], hfree, fun p hp => stands_put_of_ne hp⟩
  cases hplace : d.place target with
  | error refusal => rw [find, find, heq, hplace]
  | ok place =>
    have hne : place ≠ folder ++ [name] := place_ne hparent hfolder hplace hname
    rw [find_of_place (heq.trans hplace), find_of_place hplace, stands_put_of_ne hne]

/-- **Once a swap is done the whole file is the target.** -/
theorem find_of_put {folder place : Place} (hparent : d.place target.parent = .ok folder)
    (hfolder : d.entry? folder = some .folder) (hplace : d.place target = .ok place)
    (hfile : d.entry? place ≠ some .folder) :
    (d.put place (.file bytes)).place target = .ok place ∧
      (d.put place (.file bytes)).find target = .ok (.file bytes) := by
  have hkeep : d.KeepsFolders (d.put place (.file bytes)) := keepsFolders_put hfile
  have hsame := (place_eq hkeep hparent hfolder).trans hplace
  exact ⟨hsame, by rw [find_of_place hsame, stands_put_self hfile]⟩

end Disks

end Scrawl.File
