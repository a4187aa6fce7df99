import Scrawl.Decimal.Numeral
import Scrawl.File.Path
import Scrawl.Text.Case
/-!
# Scrawl.Font.Search — finding the file of a font family

A family is found by its name without anything but letters and digits.  A file whose name is that
name, alone or with one of three usual endings, is better than one whose name only begins with it;
among equals the first counts, in the order of the directories, then of the suffixes, then of the
paths. The answer for a family is kept under its name in lower case.
-/

namespace Scrawl.Font

open File

/-- A directory of fonts: all paths in it, or nothing if it does not exist. -/
structure Directory where
  paths : List Path := []

/-- The suffixes of font files, in order of preference. -/
def suffixes : List String := [".ttf", ".otf", ".ttc"]

/-- The suffix of files that hold several fonts, of which the first is taken. -/
def collectionSuffix : String := ".ttc"

/-- Whether a character counts in a font name: letters and digits of ASCII, and the characters that
differ from one only in case. -/
def isNameCharacter (c : Char) : Bool :=
  c.isAlphanum || c == '\u0130' || c == '\u0131' || c == '\u017F' || c == '\u212A'

/-- A name without anything that does not count, in lower case. -/
def normalize (name : String) : String :=
  Text.lower (String.ofList (name.toList.filter isNameCharacter))

/-- The names that are as good as the name itself. -/
def aliases (name : String) : List String :=
  [name, name ++ "regular", name ++ "mt", name ++ "psmt"]

/-- How well a file fits a normalized name: zero for the name itself, one for a name that begins
with it. -/
def score? (name : String) (path : Path) : Option Nat :=
  let stem := normalize path.stem
  if (aliases name).contains stem then some 0
  else if name.toList.isPrefixOf stem.toList then some 1
  else none

/-- The paths in a directory whose names end in the suffix, in order. -/
def Directory.matching (d : Directory) (suffix : String) : List Path :=
  (d.paths.filter fun p => suffix.toList.isSuffixOf p.name.toList).mergeSort Path.le

/-- The text under which a file is loaded. -/
def candidateText (suffix : String) (path : Path) : String :=
  if suffix == collectionSuffix then path.toString ++ ";0" else path.toString

/-- The better of the best so far and the next file. -/
def better (name : String) (best : Option (Nat × String)) (file : String × Path) :
    Option (Nat × String) :=
  match score? name file.2, best with
  | none, _ => best
  | some score, none => some (score, candidateText file.1 file.2)
  | some score, some (least, _) =>
    if score < least then some (score, candidateText file.1 file.2) else best

/-- All font files, each with the suffix that it was found by, in the order of preference. -/
def files (dirs : List Directory) : List (String × Path) :=
  dirs.flatMap fun d => suffixes.flatMap fun suffix => (d.matching suffix).map (suffix, ·)

/-- The file of a family. -/
def search (dirs : List Directory) (family : String) : Option String :=
  let name := normalize family
  if name.isEmpty then none else ((files dirs).foldl (better name) none).map (·.2)

/-- The answers given so far, by the family in lower case. -/
abbrev Cache := List (String × Option String)

/-- The file of a family, from the cache where it has an answer, and the cache with the answer. -/
def locate (dirs : List Directory) (cache : Cache) (family : String) : Option String × Cache :=
  let key := Text.lower family
  match cache.lookup key with
  | some found => (found, cache)
  | none =>
    let found := search dirs family
    (found, (key, found) :: cache)

/-- Splits the text under which a font is loaded into its path and the number of the font in the
file. -/
def splitCandidate (text : String) : String × Int :=
  let cs := text.toList
  if cs.contains ';' then
    let index := (cs.reverse.takeWhile (· != ';')).reverse
    let path := cs.take (cs.length - (index.length + 1))
    (String.ofList path, (Decimal.readInt? (String.ofList index)).getD 0)
  else (text, 0)

end Scrawl.Font
