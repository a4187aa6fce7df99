import Scrawl.File.Path
import Scrawl.Text.Quoted
/-!
# Scrawl.File.Disk — folders and files

A disk holds folders and files by the names on the way from its root, and has a working folder from
which relative paths go out.  A path is walked name by name: every step starts in a folder, and two
dots go back up.
-/

namespace Scrawl.File

/-- The names on the way from the root. -/
abbrev Place := List String

/-- What stands at a place. -/
inductive Entry
  | folder
  | file (bytes : List UInt8)
  /-- A file that may be neither read nor written. -/
  | sealed
  deriving DecidableEq

/-- How the file system refuses a request. -/
inductive Refusal
  | missing
  | denied
  | notFolder
  | isFolder
  | nameTooLong
  /-- The place cannot be replaced, because it is in use. -/
  | busy
  /-- There is a zero character in the path.  That is told before the file system is asked. -/
  | zeroCharacter
  deriving DecidableEq

namespace Refusal

/-- The number of a refusal by the file system. -/
def number? : Refusal → Option Nat
  | missing => some 2
  | denied => some 13
  | busy => some 16
  | notFolder => some 20
  | isFolder => some 21
  | nameTooLong => some 36
  | zeroCharacter => none

/-- The wording of a refusal. -/
def text : Refusal → String
  | missing => "No such file or directory"
  | denied => "Permission denied"
  | notFolder => "Not a directory"
  | isFolder => "Is a directory"
  | nameTooLong => "File name too long"
  | busy => "Device or resource busy"
  | zeroCharacter => "embedded null byte"

/-- Whether the refusal comes from the file system. -/
def isSystem (r : Refusal) : Bool := r.number?.isSome

end Refusal

/-- A request that is refused, with the path it is about and for a renaming the new one. -/
structure Fault where
  refusal : Refusal
  path : String
  target : Option String := none
  deriving DecidableEq

/-- The wording of the fault. -/
def Fault.message (f : Fault) : String :=
  match f.refusal.number? with
  | none => f.refusal.text
  | some number =>
    "[Errno " ++ toString number ++ "] " ++ f.refusal.text ++ ": " ++ Text.quoted f.path ++
      match f.target with
      | some target => " -> " ++ Text.quoted target
      | none => ""

/-- Folders and files. -/
structure Disk where
  /-- The working folder, which stands with all folders above it. -/
  home : Place := []
  entries : List (Place × Entry) := []

namespace Disk

/-- What stands at a place. -/
def entry? (d : Disk) (p : Place) : Option Entry :=
  if p.isPrefixOf d.home then some .folder else d.entries.lookup p

/-- The disk without what stands at a place. -/
def erase (d : Disk) (p : Place) : Disk :=
  { d with entries := d.entries.filter fun e => e.1 != p }

/-- The disk with an entry at a place. -/
def put (d : Disk) (p : Place) (e : Entry) : Disk :=
  { d with entries := (p, e) :: (d.erase p).entries }

/-- The most bytes of a name. -/
def nameLimit : Nat := 255

/-- Walks names, from a place on. -/
def walk (d : Disk) : Place → List String → Except Refusal Place
  | here, [] => .ok here
  | here, name :: rest =>
    match d.entry? here with
    | none => .error .missing
    | some .folder =>
      if name == ".." then walk d here.dropLast rest
      else if nameLimit < name.utf8ByteSize then .error .nameTooLong
      else walk d (here ++ [name]) rest
    | some _ => .error .notFolder

/-- The most bytes of a path. -/
def pathLimit : Nat := 4095

/-- What keeps a path from being looked up at all. -/
def pathFault? (p : Path) : Option Refusal :=
  if p.toString.toList.contains '\x00' then some .zeroCharacter
  else if pathLimit < p.toString.utf8ByteSize then some .nameTooLong
  else none

/-- The place of a path. -/
def place (d : Disk) (p : Path) : Except Refusal Place :=
  match pathFault? p with
  | some refusal => .error refusal
  | none => walk d (if p.root.isEmpty then d.home else []) p.parts

/-- What stands at the end of a path. -/
def find (d : Disk) (p : Path) : Except Refusal Entry :=
  match d.place p with
  | .error refusal => .error refusal
  | .ok place =>
    match d.entry? place with
    | some e => .ok e
    | none => .error .missing

/-- Whether anything stands at the end of a path.  A way that leads nowhere is a no. -/
def exists? (d : Disk) (p : Path) : Except Fault Bool :=
  match d.find p with
  | .ok _ => .ok true
  | .error .missing => .ok false
  | .error .notFolder => .ok false
  | .error .zeroCharacter => .ok false
  | .error refusal => .error { refusal, path := p.toString }

/-- The bytes of a file. -/
def read (d : Disk) (p : Path) : Except Fault (List UInt8) :=
  match d.find p with
  | .ok (.file bytes) => .ok bytes
  | .ok .folder => .error { refusal := .isFolder, path := p.toString }
  | .ok .sealed => .error { refusal := .denied, path := p.toString }
  | .error refusal => .error { refusal, path := p.toString }

/-- The disk with a file written at the end of a path. -/
def write (d : Disk) (p : Path) (bytes : List UInt8) : Except Fault Disk :=
  match d.place p with
  | .error refusal => .error { refusal, path := p.toString }
  | .ok place =>
    match d.entry? place with
    | some .folder => .error { refusal := .isFolder, path := p.toString }
    | some .sealed => .error { refusal := .denied, path := p.toString }
    | _ => .ok (d.put place (.file bytes))

end Disk

end Scrawl.File
