/-!
# Scrawl.File.Path — paths of files

A path is a root and its components.  Reading a path drops empty components and single dots but
keeps double dots; two slashes in front, but not three, are a root of their own.
-/

namespace Scrawl.File

/-- A path in the file system. -/
structure Path where
  /-- Empty for a relative path, else one or two slashes. -/
  root : String := ""
  parts : List String := []
  deriving DecidableEq

namespace Path

/-- The pieces of a text between slashes. -/
def splitSlashes : List Char → List (List Char)
  | [] => [[]]
  | c :: rest =>
    if c == '/' then [] :: splitSlashes rest
    else match splitSlashes rest with
      | [] => [[c]]
      | piece :: more => (c :: piece) :: more

/-- The root in front of a path. -/
def rootOf : List Char → String
  | '/' :: '/' :: '/' :: _ => "/"
  | '/' :: '/' :: _ => "//"
  | '/' :: _ => "/"
  | _ => ""

/-- Reads a path. -/
def ofString (s : String) : Path :=
  { root := rootOf s.toList
    parts := ((splitSlashes s.toList).map String.ofList).filter fun p => p != "" && p != "." }

/-- The text of a path; a single dot if it has neither root nor components. -/
def toString (p : Path) : String :=
  let text := p.root ++ "/".intercalate p.parts
  if text.isEmpty then "." else text

/-- The last component, empty if there is none. -/
def name (p : Path) : String := p.parts.getLastD ""

/-- Whether the path ends in a name of its own, and not in the root, two dots or nothing. -/
def endsInName (p : Path) : Bool := p.name != "" && p.name != ".."

/-- The path without its last component. -/
def parent (p : Path) : Path := { p with parts := p.parts.dropLast }

/-- Splits a name at the last dot that is neither in front nor at its end: the stem, and the suffix
with its dot. -/
def splitSuffix (name : List Char) : List Char × List Char :=
  let suffix := (name.reverse.takeWhile (· != '.')).reverse
  let stem := name.take (name.length - (suffix.length + 1))
  if suffix.length < name.length && !stem.isEmpty && !suffix.isEmpty then (stem, '.' :: suffix)
  else (name, [])

/-- The last component without its suffix. -/
def stem (p : Path) : String := String.ofList (splitSuffix p.name.toList).1

/-- The path with another suffix; none if it has no last component. -/
def withSuffix? (p : Path) (suffix : String) : Option Path :=
  if p.name.isEmpty then none
  else some { p with parts := p.parts.dropLast ++ [p.stem ++ suffix] }

/-- Whether a path comes before another, component by component. -/
def le (p q : Path) : Bool := !decide (q.root :: q.parts < p.root :: p.parts)

end Path

end Scrawl.File
