import Mathlib.Data.List.Induction
import Scrawl.Font.Load
import Scrawl.Proofs.Font.Names
import Scrawl.Proofs.Font.Search

/-!
# Scrawl.Proofs.Font.Cache — which answers are given again

An answer is kept under the family in lower case, and given again for every family with that
lower-case form.  A search goes by the normalized name, which the lower-case form determines but for
the dotted capital I: it is a plain i with a dot above in lower case, and only the capital keeps its
dot in the normalized name.

* `search_eq_iff`: families find the same in all directories exactly if their normalized names
  agree.
* `lookup_cacheAfter`: the cache has the answer for the first family of each lower-case form.
* `locate_remembered`: which answer is given, and when it is that of a measurer that has not been
  asked before.
* `cache_load`: loading a font asks for families, too.
-/

namespace Scrawl.Font

open File Text

/-! ### Files that tell names apart -/

section Searches

variable {a b family : String}

/-- A file that has the characters of the family that count for its name. -/
def eponym (family : String) : Path :=
  { parts := [String.ofList (nameCharacters family) ++ ".ttf"] }

theorem name_eponym (family : String) :
    (eponym family).name.toList = nameCharacters family ++ ".ttf".toList := by
  change (String.ofList (nameCharacters family) ++ ".ttf").toList = _
  rw [String.toList_append, String.toList_ofList]

theorem normalize_stem_eponym (h : normalize family ≠ "") :
    normalize (eponym family).stem = normalize family := by
  have hne : nameCharacters family ≠ [] := fun hnil => h (normalize_eq_empty.mpr hnil)
  have hsplit : ∀ cs : List Char, cs ≠ [] →
      Path.splitSuffix (cs ++ ".ttf".toList) = (cs, ".ttf".toList) := by
    intro cs hcs
    simp [Path.splitSuffix, hcs]
  rw [Path.stem, name_eponym, hsplit _ hne, normalize_nameCharacters]

/-- The only file is found for the names that its own begins with. -/
theorem search_eponym (h : normalize b ≠ "") : search [⟨[eponym b]⟩] a ≠ none ↔
    normalize a ≠ "" ∧ (normalize a).toList <+: (normalize b).toList := by
  have hbegins : Begins (normalize a) (eponym b) ↔
      (normalize a).toList <+: (normalize b).toList := by
    rw [Begins, normalize_stem_eponym h]
  have hfound : (∃ f : FontFile, f.StandsIn [⟨[eponym b]⟩] ∧ Begins (normalize a) f.path) ↔
      Begins (normalize a) (eponym b) := by
    constructor
    · rintro ⟨f, ⟨d, hd, hpath, -⟩, hf⟩
      obtain rfl := List.mem_singleton.mp (List.mem_of_getElem? hd)
      rwa [List.mem_singleton.mp hpath] at hf
    · exact fun hf => ⟨⟨0, ⟨0, by decide⟩, eponym b⟩, ⟨_, rfl, List.mem_singleton_self _,
        name_eponym b ▸ List.suffix_append _ _⟩, hf⟩
  rw [← hbegins, ← hfound, ne_eq, search_eq_none, not_or]
  simp only [not_forall, not_not, exists_prop, ne_eq]

/-- A family that always finds the same as another has the beginning of its normalized name. -/
theorem begins_of_search_eq (h : ∀ dirs, search dirs a = search dirs b) (hb : normalize b ≠ "") :
    normalize a ≠ "" ∧ (normalize a).toList <+: (normalize b).toList := by
  rw [← search_eponym hb, h]
  exact (search_eponym hb).mpr ⟨hb, List.prefix_rfl⟩

/-- **Two families find the same in all directories exactly if their normalized names agree.** -/
theorem search_eq_iff :
    (∀ dirs, search dirs a = search dirs b) ↔ normalize a = normalize b := by
  constructor
  · intro hsame
    by_cases ha : normalize a = ""
    · by_contra hne
      exact (begins_of_search_eq hsame fun hb => hne (ha.trans hb.symm)).1 ha
    · -- each of the two names begins with the other
      obtain ⟨hb, hba⟩ := begins_of_search_eq (fun dirs => (hsame dirs).symm) ha
      obtain ⟨-, hab⟩ := begins_of_search_eq hsame hb
      exact String.toList_injective (hab.eq_of_length_le hba.length_le)
  · intro h dirs
    rw [search, search, h]

end Searches

/-! ### What is kept -/

section Kept

variable {dirs : List Directory} {asked : List String} {family key : String}

/-- The cache after some families have been asked for. -/
def cacheAfter (dirs : List Directory) (asked : List String) : Cache :=
  asked.foldl (fun cache family => (locate dirs cache family).2) []

theorem cacheAfter_concat : cacheAfter dirs (asked ++ [family]) =
    (locate dirs (cacheAfter dirs asked) family).2 := by
  rw [cacheAfter, List.foldl_concat]
  rfl

theorem locate_of_lookup {cache : Cache} {found : Option String}
    (h : cache.lookup (lower family) = some found) :
    locate dirs cache family = (found, cache) := by
  simp only [locate, h]

theorem locate_of_lookup_none {cache : Cache} (h : cache.lookup (lower family) = none) :
    locate dirs cache family =
      (search dirs family, (lower family, search dirs family) :: cache) := by
  simp only [locate, h]

/-- **The cache has the answer for the first family of each lower-case form.** -/
theorem lookup_cacheAfter (dirs : List Directory) (asked : List String) (key : String) :
    (cacheAfter dirs asked).lookup key =
      (asked.find? fun f => lower f == key).map (search dirs) := by
  induction asked using List.reverseRecOn generalizing key with
  | nil => rfl
  | append_singleton asked family ih =>
    have hlast : ∀ key, lower family ≠ key → (asked ++ [family]).find? (fun f => lower f == key) =
        asked.find? fun f => lower f == key := by
      intro key hkey
      rw [List.find?_append, List.find?_cons_of_neg (by simpa using hkey), List.find?_nil,
        Option.or_none]
    rw [cacheAfter_concat]
    cases hfind : asked.find? fun f => lower f == lower family with
    | some first =>
      -- there is an answer, and an earlier family with the same lower-case form
      have hlookup := ih (lower family)
      rw [hfind, Option.map_some] at hlookup
      rw [locate_of_lookup hlookup, ih]
      by_cases hkey : lower family = key
      · rw [List.find?_append, ← hkey, hfind, Option.some_or]
      · rw [hlast key hkey]
    | none =>
      have hlookup := ih (lower family)
      rw [hfind, Option.map_none] at hlookup
      rw [locate_of_lookup_none hlookup, List.lookup_cons]
      by_cases hkey : lower family = key
      · rw [List.find?_append, ← hkey, hfind, Option.none_or, List.find?_cons_of_pos (by simp),
          Option.map_some, beq_self_eq_true]
      · rw [hlast key hkey, ih, beq_eq_false_iff_ne.mpr (Ne.symm hkey)]

/-- The first family asked for that has the lower-case form of the family, else the family. -/
def firstAsked (asked : List String) (family : String) : String :=
  (asked.find? fun f => lower f == lower family).getD family

theorem lower_firstAsked (asked : List String) (family : String) :
    lower (firstAsked asked family) = lower family := by
  rw [firstAsked]
  cases hfind : asked.find? fun f => lower f == lower family with
  | none => rfl
  | some first => simpa using List.find?_some hfind

/-- **An answer is that of the search for the first family with the same lower-case form.** -/
theorem locate_cacheAfter (dirs : List Directory) (asked : List String) (family : String) :
    (locate dirs (cacheAfter dirs asked) family).1 = search dirs (firstAsked asked family) := by
  have hlookup := lookup_cacheAfter dirs asked (lower family)
  rw [firstAsked]
  cases hfind : asked.find? fun f => lower f == lower family with
  | none =>
    rw [hfind, Option.map_none] at hlookup
    rw [locate_of_lookup_none hlookup, Option.getD_none]
  | some first =>
    rw [hfind, Option.map_some] at hlookup
    rw [locate_of_lookup hlookup, Option.getD_some]

theorem firstAsked_mem (asked : List String) (family : String) :
    firstAsked asked family ∈ family :: asked := by
  rw [firstAsked]
  cases hfind : asked.find? fun f => lower f == lower family with
  | none => exact List.mem_cons_self
  | some first => exact List.mem_cons_of_mem _ (List.mem_of_find?_eq_some hfind)

/-- Where no family has the dotted capital I, nothing depends on what was asked for before. -/
theorem locate_undotted (h : ∀ f ∈ family :: asked, '\u0130' ∉ f.toList)
    (dirs : List Directory) :
    (locate dirs (cacheAfter dirs asked) family).1 = (locate dirs [] family).1 := by
  have hkey := lower_firstAsked asked family
  have hdotted : dotted (firstAsked asked family) = dotted family :=
    dotted_eq_of_not_mem hkey (h _ (firstAsked_mem asked family)) (h _ List.mem_cons_self)
  rw [locate_cacheAfter, locate_nil]
  exact search_eq_iff.mpr ((normalize_eq_iff hkey).mpr hdotted) dirs

/-- **What is answered after other families have been asked for.**  The answer is the one that a
measurer that has not been asked before gives for the first family with the same lower-case form.
Whatever the directories hold it is the one for the family itself, exactly if the dotted capital I
stands in the same places in the two. -/
theorem locate_remembered (asked : List String) (family : String) :
    (∀ dirs, (locate dirs (cacheAfter dirs asked) family).1 =
      (locate dirs [] (firstAsked asked family)).1) ∧
    ((∀ dirs, (locate dirs (cacheAfter dirs asked) family).1 = (locate dirs [] family).1) ↔
      dotted (firstAsked asked family) = dotted family) := by
  constructor
  · intro dirs
    rw [locate_cacheAfter, locate_nil]
  · rw [← normalize_eq_iff (lower_firstAsked asked family), ← search_eq_iff]
    simp only [locate_cacheAfter, locate_nil]

/-- There is a file for the plain i with a dot above, but after the dotted capital I it is not
found. -/
theorem locate_dotted :
    (locate [⟨[⟨"", ["d0", "i.ttf"]⟩]⟩]
      (cacheAfter [⟨[⟨"", ["d0", "i.ttf"]⟩]⟩] ["\u0130"]) "i\u0307").1 = none ∧
    (locate [⟨[⟨"", ["d0", "i.ttf"]⟩]⟩] [] "i\u0307").1 = some "d0/i.ttf" := by
  decide +kernel

end Kept

/-! ### Loading -/

theorem locateAll_cache (dirs : List Directory) (cache : Cache) (families : List String) :
    (locateAll dirs cache families).2 =
      families.foldl (fun cache family => (locate dirs cache family).2) cache := by
  induction families generalizing cache with
  | nil => rfl
  | cons family families ih => exact ih (locate dirs cache family).2

/-- Loading a font asks for the stand-ins of its family, unless there is no size to load it at. -/
theorem cache_load (loader : Loader) (dirs : List Directory) (asked : List String) (w : Wish) :
    (load loader dirs (cacheAfter dirs asked) w).cache =
      cacheAfter dirs (asked ++ match loadSize w.size with
        | .ok _ => standIns w.family
        | .error _ => []) := by
  rw [load]
  cases loadSize w.size with
  | error fault => rw [List.append_nil]
  | ok size =>
    have hcache := locateAll_cache dirs (cacheAfter dirs asked) (standIns w.family)
    rw [cacheAfter, ← List.foldl_append] at hcache
    dsimp only
    split_ifs <;> exact hcache

end Scrawl.Font
