import Scrawl.Font.Search
import Scrawl.Font.Size
import Scrawl.Label.Surface
/-!
# Scrawl.Font.Load — loading the font of a family

The explicit font file is tried first, then the files of the family and of its usual stand-ins, then
a common font, and last the default font.
-/

namespace Scrawl.Font

open File

/-- The families to try for a family. -/
def standIns (family : String) : List String :=
  match Text.lower family with
  | "xkcd-script" => ["xkcd-script", "xkcd Script", "Humor Sans", "Comic Neue", "Comic Sans MS"]
  | "sans-serif" => ["Helvetica", "Arial", "Liberation Sans", "DejaVu Sans"]
  | "serif" => ["Times New Roman", "Times", "Liberation Serif", "DejaVu Serif"]
  | "monospace" => ["Courier New", "Courier", "Liberation Mono", "DejaVu Sans Mono"]
  | _ => [family]

/-- The font file that is tried for every family. -/
def commonFont : String := "DejaVuSans.ttf"

/-- What is asked for. -/
structure Wish where
  family : String
  size : Float
  /-- An explicit font file; an empty text counts as none. -/
  path : Option String

/-- The explicit font file of a wish. -/
def Wish.file? (w : Wish) : Option String :=
  w.path.bind fun p => if p.isEmpty then none else some (Path.ofString p).toString

/-- Locates families in order. -/
def locateAll (dirs : List Directory) (cache : Cache) : List String → List String × Cache
  | [] => ([], cache)
  | family :: rest =>
    let (found, cache) := locate dirs cache family
    let (more, cache) := locateAll dirs cache rest
    (found.toList ++ more, cache)

/-- An attempt to load a font: a file, or the default font. -/
inductive Attempt
  | file (path : String) (size : Int) (index : Int)
  | default (size : Int)
  deriving DecidableEq

/-- The attempts up to the first file that can be loaded, and whether there was one. -/
def tryFiles (loads : String → Bool) (size : Int) : List String → List Attempt × Bool
  | [] => ([], false)
  | candidate :: rest =>
    let (path, index) := splitCandidate candidate
    let attempt := Attempt.file path size index
    if loads path then ([attempt], true)
    else
      let (more, done) := tryFiles loads size rest
      (attempt :: more, done)

/-- What can be loaded: which files, and whether the default font. -/
structure Loader where
  files : String → Bool
  default : Bool

/-- The outcome of loading: the attempts, the size or the fault, and the cache of located files. -/
structure Loading where
  tried : List Attempt
  result : Except Label.MeasureFault Int
  cache : Cache

/-- Loads the font of a wish. -/
def load (loader : Loader) (dirs : List Directory) (cache : Cache) (w : Wish) : Loading :=
  match loadSize w.size with
  | .error fault => ⟨[], .error (.number fault), cache⟩
  | .ok size =>
    let (found, cache) := locateAll dirs cache (standIns w.family)
    let (tried, done) := tryFiles loader.files size (w.file?.toList ++ found ++ [commonFont])
    if done then ⟨tried, .ok size, cache⟩
    else
      let result := if loader.default then .ok size else .error (.noFont w.family)
      ⟨tried ++ [.default size], result, cache⟩

end Scrawl.Font
