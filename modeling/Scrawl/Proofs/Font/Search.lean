import Mathlib.Data.List.FinRange
import Mathlib.Data.List.Lex
import Mathlib.Data.Prod.Lex
import Mathlib.Data.String.Basic
import Scrawl.Font.Search

/-!
# Scrawl.Proofs.Font.Search — which file is found for a font family

The best file so far gives way to a strictly better one only.  All files come in the order of their
directories, of their suffixes and of their paths, so the file that is left in the end is the least
one in that order, among the files that bear the name if there are any, else among those whose names
begin with it.

* `foldl_better`: the last of the best files is the first that bears the name, else the first that
  begins with it.
* `listing_sorted`, `mem_listing`: the files of the directories, in order.
* `search_eq_some`, `search_eq_none`: what a search finds, and when it finds nothing.
* `locate_fresh`: the same for a family that has not been asked for.
-/

namespace Scrawl.Font

open File

/-! ### How well a file fits -/

section Fit

variable {name : String} {path : Path}

/-- The name of the file, normalized, is the name, alone or with one of three endings. -/
def Bears (name : String) (path : Path) : Prop :=
  normalize path.stem ∈ [name, name ++ "regular", name ++ "mt", name ++ "psmt"]

/-- The name of the file, normalized, is the name or goes on from it. -/
def Begins (name : String) (path : Path) : Prop :=
  name.toList <+: (normalize path.stem).toList

instance : Decidable (Bears name path) := inferInstanceAs (Decidable (_ ∈ _))

instance : Decidable (Begins name path) := inferInstanceAs (Decidable (_ <+: _))

theorem Bears.begins (h : Bears name path) : Begins name path := by
  have hends : ∃ ending, normalize path.stem = name ++ ending := by
    simp only [Bears, List.mem_cons, List.not_mem_nil, or_false] at h
    rcases h with h | h | h | h
    · exact ⟨"", by rw [h, String.append_empty]⟩
    · exact ⟨_, h⟩
    · exact ⟨_, h⟩
    · exact ⟨_, h⟩
  obtain ⟨ending, hending⟩ := hends
  rw [Begins, hending, String.toList_append]
  exact List.prefix_append _ _

theorem score?_eq : score? name path =
    if Bears name path then some 0 else if Begins name path then some 1 else none := by
  have hbears : (aliases name).contains (normalize path.stem) ↔ Bears name path :=
    List.contains_iff_mem
  have hbegins : name.toList.isPrefixOf (normalize path.stem).toList ↔ Begins name path :=
    List.isPrefixOf_iff_prefix
  rw [score?]
  exact if_congr hbears rfl (if_congr hbegins rfl rfl)

theorem score?_eq_zero : score? name path = some 0 ↔ Bears name path := by
  rw [score?_eq]
  by_cases hbears : Bears name path
  · simp [hbears]
  · by_cases hbegins : Begins name path <;> simp [hbears, hbegins]

theorem score?_eq_one : score? name path = some 1 ↔ Begins name path ∧ ¬ Bears name path := by
  rw [score?_eq]
  by_cases hbears : Bears name path
  · simp [hbears]
  · by_cases hbegins : Begins name path <;> simp [hbears, hbegins]

theorem score?_eq_none : score? name path = none ↔ ¬ Begins name path := by
  rw [score?_eq]
  split_ifs with hbears hbegins
  · simp [hbears.begins]
  · simp [hbegins]
  · simp [hbegins]

end Fit

/-! ### The best file so far -/

section Best

variable {name text : String} {file : String × Path} {best : Option (ℕ × String)} {score : ℕ}

theorem better_of_none (h : score? name file.2 = none) : better name best file = best := by
  unfold better
  rw [h]

theorem better_none (h : score? name file.2 = some score) :
    better name none file = some (score, candidateText file.1 file.2) := by
  unfold better
  rw [h]

theorem better_some {least : ℕ} (h : score? name file.2 = some score) :
    better name (some (least, text)) file =
      if score < least then some (score, candidateText file.1 file.2) else some (least, text) := by
  unfold better
  rw [h]

/-- A file that bears the name is kept. -/
theorem foldl_better_of_bears (files : List (String × Path)) :
    files.foldl (better name) (some (0, text)) = some (0, text) := by
  induction files with
  | nil => rfl
  | cons file files ih =>
    have hkeep : better name (some (0, text)) file = some (0, text) := by
      cases hscore : score? name file.2 with
      | none => exact better_of_none hscore
      | some score => rw [better_some hscore, if_neg (Nat.not_lt_zero score)]
    rw [List.foldl_cons, hkeep, ih]

/-- The text under which the file is loaded, with the score. -/
def scored (score : ℕ) (file : String × Path) : ℕ × String :=
  (score, candidateText file.1 file.2)

/-- A file whose name goes on gives way to the first one that bears the name. -/
theorem foldl_better_of_begins (files : List (String × Path)) :
    files.foldl (better name) (some (1, text)) =
      ((files.find? fun file => Bears name file.2).map (scored 0)).or (some (1, text)) := by
  induction files with
  | nil => rfl
  | cons file files ih =>
    rw [List.foldl_cons, List.find?_cons]
    by_cases hbears : Bears name file.2
    · rw [better_some (score?_eq_zero.mpr hbears), if_pos Nat.one_pos, foldl_better_of_bears,
        decide_eq_true hbears]
      rfl
    · have hkeep : better name (some (1, text)) file = some (1, text) := by
        by_cases hbegins : Begins name file.2
        · rw [better_some (score?_eq_one.mpr ⟨hbegins, hbears⟩), if_neg (lt_irrefl 1)]
        · exact better_of_none (score?_eq_none.mpr hbegins)
      rw [hkeep, ih, decide_eq_false hbears]

/-- **The file that is left is the first that bears the name, else the first that begins with
it.** -/
theorem foldl_better (files : List (String × Path)) :
    files.foldl (better name) none =
      ((files.find? fun file => Bears name file.2).map (scored 0)).or
        ((files.find? fun file => Begins name file.2).map (scored 1)) := by
  induction files with
  | nil => rfl
  | cons file files ih =>
    rw [List.foldl_cons, List.find?_cons, List.find?_cons]
    by_cases hbears : Bears name file.2
    · rw [better_none (score?_eq_zero.mpr hbears), foldl_better_of_bears, decide_eq_true hbears]
      rfl
    · rw [decide_eq_false hbears]
      by_cases hbegins : Begins name file.2
      · rw [better_none (score?_eq_one.mpr ⟨hbegins, hbears⟩), foldl_better_of_begins,
          decide_eq_true hbegins]
        rfl
      · rw [better_of_none (score?_eq_none.mpr hbegins), ih, decide_eq_false hbegins]

end Best

/-! ### All files in order -/

/-- A font file in a list of directories: the number of its directory, the number of the suffix that
it is found by, and its path. -/
structure FontFile where
  directory : ℕ
  suffix : Fin suffixes.length
  path : Path

namespace FontFile

/-- The suffix that the file is found by. -/
def ending (f : FontFile) : String := suffixes.get f.suffix

/-- The file is in its directory, and its name has the suffix. -/
def StandsIn (dirs : List Directory) (f : FontFile) : Prop :=
  ∃ d, dirs[f.directory]? = some d ∧ f.path ∈ d.paths ∧
    f.ending.toList <:+ f.path.name.toList

/-- The place of a file: first by its directory, then by its suffix, then by its path. -/
def place (f : FontFile) : ℕ ×ₗ ℕ ×ₗ List String :=
  toLex (f.directory, toLex (f.suffix.val, f.path.root :: f.path.parts))

/-- The rank of a file for a name: a file that bears the name is before all others, then the place
counts. -/
def rank (name : String) (f : FontFile) : ℕ ×ₗ ℕ ×ₗ ℕ ×ₗ List String :=
  toLex (if Bears name f.path then 0 else 1, f.place)

/-- The text under which the file is loaded: a file with several fonts is loaded with the number of
the first. -/
def text (f : FontFile) : String :=
  if f.ending = ".ttc" then f.path.toString ++ ";0" else f.path.toString

/-- The best file for a name: the first by rank of those whose names begin with it. -/
structure IsBest (dirs : List Directory) (name : String) (f : FontFile) : Prop where
  stands : f.StandsIn dirs
  begins : Begins name f.path
  first : ∀ g : FontFile, g.StandsIn dirs → Begins name g.path → f.rank name ≤ g.rank name

theorem place_injective : Function.Injective place := by
  rintro ⟨i, k, root, parts⟩ ⟨j, l, root', parts'⟩ h
  obtain ⟨rfl, h⟩ := Prod.mk.inj (toLex.injective h)
  obtain ⟨hsuffix, h⟩ := Prod.mk.inj (toLex.injective h)
  obtain ⟨rfl, rfl⟩ := List.cons.inj h
  obtain rfl := Fin.ext hsuffix
  rfl

theorem rank_le_rank {name : String} {f g : FontFile} : f.rank name ≤ g.rank name ↔
    (Bears name f.path ∧ ¬ Bears name g.path) ∨
      ((Bears name f.path ↔ Bears name g.path) ∧ f.place ≤ g.place) := by
  rw [rank, rank, Prod.Lex.toLex_le_toLex]
  split_ifs with hf hg hg <;> simp [hf, hg]

/-- There is one best file at most. -/
theorem IsBest.unique {dirs : List Directory} {name : String} {f g : FontFile}
    (hf : f.IsBest dirs name) (hg : g.IsBest dirs name) : f = g := by
  have hrank := le_antisymm (hf.first g hg.stands hg.begins) (hg.first f hf.stands hf.begins)
  exact place_injective (Prod.mk.inj (toLex.injective hrank)).2

theorem text_eq (f : FontFile) : f.text = candidateText f.ending f.path := by
  by_cases h : f.ending = ".ttc" <;> simp [text, candidateText, collectionSuffix, h]

end FontFile

/-- The files of one directory with one suffix. -/
def listingOf (d : Directory) (i : ℕ) (k : Fin suffixes.length) : List FontFile :=
  (d.matching (suffixes.get k)).map fun p => ⟨i, k, p⟩

/-- All font files of the directories. -/
def listing (dirs : List Directory) : List FontFile :=
  dirs.zipIdx.flatMap fun d => (List.finRange suffixes.length).flatMap (listingOf d.1 d.2)

theorem files_eq (dirs : List Directory) :
    files dirs = (listing dirs).map fun f => (f.ending, f.path) := by
  have hdirectory : ∀ (d : Directory) (i : ℕ),
      (suffixes.flatMap fun suffix => (d.matching suffix).map (suffix, ·)) =
        ((List.finRange suffixes.length).flatMap (listingOf d i)).map fun f =>
          (f.ending, f.path) := by
    intro d i
    conv_lhs => rw [← List.map_get_finRange suffixes]
    rw [List.flatMap_map, List.map_flatMap]
    simp only [listingOf, List.map_map]
    rfl
  conv_lhs => rw [files, ← List.zipIdx_map_fst 0 dirs]
  rw [List.flatMap_map, listing, List.map_flatMap]
  exact congrArg (List.flatMap · dirs.zipIdx) (funext fun d => hdirectory d.1 d.2)

theorem mem_matching {d : Directory} {suffix : String} {p : Path} :
    p ∈ d.matching suffix ↔ p ∈ d.paths ∧ suffix.toList <:+ p.name.toList := by
  simp [Directory.matching, List.mem_mergeSort]

theorem mem_listing {dirs : List Directory} {f : FontFile} :
    f ∈ listing dirs ↔ f.StandsIn dirs := by
  constructor
  · intro hf
    obtain ⟨⟨d, i⟩, hd, hf⟩ := List.mem_flatMap.mp hf
    obtain ⟨k, -, hf⟩ := List.mem_flatMap.mp hf
    obtain ⟨p, hp, rfl⟩ := List.mem_map.mp hf
    exact ⟨d, List.mem_zipIdx_iff_getElem?.mp hd, mem_matching.mp hp⟩
  · rintro ⟨d, hd, hpath⟩
    exact List.mem_flatMap.mpr ⟨(d, f.directory), List.mem_zipIdx_iff_getElem?.mpr hd,
      List.mem_flatMap.mpr ⟨f.suffix, List.mem_finRange _,
        List.mem_map.mpr ⟨f.path, mem_matching.mpr hpath, rfl⟩⟩⟩

theorem le_iff {p q : Path} : p.le q ↔ p.root :: p.parts ≤ q.root :: q.parts := by
  rw [Path.le, Bool.not_eq_true', decide_eq_false_iff_not, not_lt]

theorem matching_sorted (d : Directory) (suffix : String) :
    (d.matching suffix).Pairwise fun p q => p.root :: p.parts ≤ q.root :: q.parts := by
  have hsorted := @List.pairwise_mergeSort Path Path.le
    (fun p q r hpq hqr => le_iff.mpr ((le_iff.mp hpq).trans (le_iff.mp hqr)))
    (fun p q => by rw [Bool.or_eq_true, le_iff, le_iff]; exact le_total _ _)
    (d.paths.filter fun p => suffix.toList.isSuffixOf p.name.toList)
  exact hsorted.imp le_iff.mp

/-- **All files come in the order of their places.** -/
theorem listing_sorted (dirs : List Directory) :
    (listing dirs).Pairwise fun f g => f.place ≤ g.place := by
  refine List.pairwise_flatMap.mpr ⟨fun d _ => List.pairwise_flatMap.mpr ⟨fun k _ => ?_, ?_⟩, ?_⟩
  · -- files of one directory with one suffix
    refine List.pairwise_map.mpr ((matching_sorted _ _).imp fun {p q} hpq => ?_)
    exact Prod.Lex.toLex_le_toLex.mpr (Or.inr ⟨rfl, Prod.Lex.toLex_le_toLex.mpr
      (Or.inr ⟨rfl, hpq⟩)⟩)
  · -- files of one directory with two suffixes
    refine (List.pairwise_lt_finRange _).imp fun {k l} hkl f hf g hg => ?_
    obtain ⟨p, -, rfl⟩ := List.mem_map.mp hf
    obtain ⟨q, -, rfl⟩ := List.mem_map.mp hg
    exact Prod.Lex.toLex_le_toLex.mpr (Or.inr ⟨rfl, Prod.Lex.toLex_le_toLex.mpr (Or.inl hkl)⟩)
  · -- files of two directories
    have hnumbers : dirs.zipIdx.Pairwise fun d e => d.2 < e.2 := by
      rw [← List.pairwise_map (f := Prod.snd) (R := (· < ·)), List.zipIdx_map_snd]
      exact List.pairwise_lt_range'
    refine hnumbers.imp fun {d e} hde f hf g hg => ?_
    obtain ⟨k, -, hf⟩ := List.mem_flatMap.mp hf
    obtain ⟨p, -, rfl⟩ := List.mem_map.mp hf
    obtain ⟨l, -, hg⟩ := List.mem_flatMap.mp hg
    obtain ⟨q, -, rfl⟩ := List.mem_map.mp hg
    exact Prod.Lex.toLex_le_toLex.mpr (Or.inl hde)

/-! ### Searching -/

section Searching

variable {dirs : List Directory} {family : String} {f : FontFile}

theorem search_eq (dirs : List Directory) (family : String) : search dirs family =
    if normalize family = "" then none
    else (((listing dirs).find? fun f => Bears (normalize family) f.path).or
      ((listing dirs).find? fun f => Begins (normalize family) f.path)).map FontFile.text := by
  rw [search]
  by_cases hempty : normalize family = ""
  · simp [hempty]
  · rw [if_neg (by simpa using hempty), if_neg hempty, foldl_better, files_eq]
    rw [List.find?_map, List.find?_map]
    have htext : FontFile.text = fun f => candidateText f.ending f.path :=
      funext FontFile.text_eq
    rw [htext]
    simp only [Function.comp_def, Option.map_or, Option.map_map]
    rfl

/-- What comes first in a list that is sorted by place has the least place. -/
theorem place_le_of_find? {p : FontFile → Bool} (h : (listing dirs).find? p = some f)
    {g : FontFile} (hg : g.StandsIn dirs) (hp : p g) : f.place ≤ g.place := by
  obtain ⟨-, before, after, hsplit, hbefore⟩ := List.find?_eq_some_iff_append.mp h
  have hsorted := listing_sorted dirs
  have hmem := mem_listing.mpr hg
  rw [hsplit] at hsorted hmem
  rcases List.mem_append.mp hmem with hmem | hmem
  · exact absurd hp (by simpa using hbefore g hmem)
  · rcases List.mem_cons.mp hmem with rfl | hmem
    · exact le_rfl
    · exact (List.pairwise_cons.mp (List.pairwise_append.mp hsorted).2.1).1 g hmem

/-- The first file that bears the name, else the first that begins with it, is the best one. -/
theorem isBest_of_find? {name : String}
    (h : ((listing dirs).find? fun f => Bears name f.path).or
      ((listing dirs).find? fun f => Begins name f.path) = some f) : f.IsBest dirs name := by
  rcases Option.or_eq_some_iff.mp h with hfind | ⟨hnone, hfind⟩
  · have hbears : Bears name f.path := by simpa using List.find?_some hfind
    refine ⟨mem_listing.mp (List.mem_of_find?_eq_some hfind), hbears.begins, fun g hg _ => ?_⟩
    rw [FontFile.rank_le_rank]
    by_cases hbears' : Bears name g.path
    · exact Or.inr ⟨iff_of_true hbears hbears',
        place_le_of_find? hfind hg (decide_eq_true hbears')⟩
    · exact Or.inl ⟨hbears, hbears'⟩
  · have hbegins : Begins name f.path := by simpa using List.find?_some hfind
    have hbears : ∀ g : FontFile, g.StandsIn dirs → ¬ Bears name g.path := fun g hg =>
      of_decide_eq_false (Bool.not_eq_true _ ▸ List.find?_eq_none.mp hnone g (mem_listing.mpr hg))
    have hstands := mem_listing.mp (List.mem_of_find?_eq_some hfind)
    refine ⟨hstands, hbegins, fun g hg hbegins' => ?_⟩
    exact FontFile.rank_le_rank.mpr (Or.inr ⟨iff_of_false (hbears f hstands) (hbears g hg),
      place_le_of_find? hfind hg (decide_eq_true hbegins')⟩)

/-- Nothing is found for a name in which nothing counts, and where no name begins with it. -/
theorem search_eq_none : search dirs family = none ↔
    normalize family = "" ∨
      ∀ f : FontFile, f.StandsIn dirs → ¬ Begins (normalize family) f.path := by
  rw [search_eq]
  by_cases hempty : normalize family = ""
  · rw [if_pos hempty]
    exact iff_of_true rfl (Or.inl hempty)
  · rw [if_neg hempty, Option.map_eq_none_iff, Option.or_eq_none_iff, List.find?_eq_none,
      List.find?_eq_none, or_iff_right hempty]
    simp only [mem_listing, decide_eq_true_eq]
    exact ⟨fun h => h.2, fun h => ⟨fun f hf hbears => h f hf hbears.begins, h⟩⟩

/-- **What is found is the best file.** -/
theorem search_eq_some {text : String} : search dirs family = some text ↔
    normalize family ≠ "" ∧ ∃ f : FontFile, f.IsBest dirs (normalize family) ∧ f.text = text := by
  have hbest : ∀ {found : String}, search dirs family = some found → normalize family ≠ "" ∧
      ∃ f : FontFile, f.IsBest dirs (normalize family) ∧ f.text = found := by
    intro found h
    rw [search_eq] at h
    split_ifs at h with hempty
    obtain ⟨f, hf, rfl⟩ := Option.map_eq_some_iff.mp h
    exact ⟨hempty, f, isBest_of_find? hf, rfl⟩
  refine ⟨hbest, fun ⟨hempty, f, hf, htext⟩ => ?_⟩
  cases hfound : search dirs family with
  | none => exact ((search_eq_none.mp hfound).elim hempty fun h => h f hf.stands hf.begins).elim
  | some found =>
    obtain ⟨-, g, hg, rfl⟩ := hbest hfound
    rw [hf.unique hg] at htext
    rw [htext]

theorem locate_nil (dirs : List Directory) (family : String) :
    (locate dirs [] family).1 = search dirs family := by
  simp only [locate, List.lookup_nil]

/-- **A family that is asked for first.**  Nothing is found if nothing in the name counts, or no
file's name begins with it; else the best file is. -/
theorem locate_fresh (dirs : List Directory) (family : String) :
    ((locate dirs [] family).1 = none ↔ normalize family = "" ∨
      ∀ f : FontFile, f.StandsIn dirs → ¬ Begins (normalize family) f.path) ∧
    ∀ text, (locate dirs [] family).1 = some text ↔ normalize family ≠ "" ∧
      ∃ f : FontFile, f.IsBest dirs (normalize family) ∧ f.text = text := by
  rw [locate_nil]
  exact ⟨search_eq_none, fun _ => search_eq_some⟩

/-- The name itself is better than one that goes on from it, though that comes in an earlier
directory and has a better suffix. -/
example : (locate [⟨[⟨"", ["a", "Ab.ttf"]⟩]⟩, ⟨[]⟩, ⟨[⟨"", ["b", "a-mt.ttc"]⟩]⟩] [] "A").1 =
    some "b/a-mt.ttc;0" := by decide +kernel

end Searching

end Scrawl.Font
