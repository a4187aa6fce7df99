import Scrawl.File.Disk
/-!
# Scrawl.File.Swap — replacing a file in one step

A new text is written to a temporary file beside the target and then renamed onto it, so that who
looks sees the old file or the new one.  Where an operation fails the temporary file is removed.  A
swap keeps the states that the disk passes through.
-/

namespace Scrawl.File

/-- The operations of a swap that are made to fail. -/
structure Hindrance where
  create : Option Refusal := none
  /-- Writing fails after some bytes. -/
  write : Option (Refusal × Nat) := none
  rename : Option Refusal := none

/-- A swap: the states of the disk after each operation, first to last, and why it failed if it did.
-/
structure Swap where
  passed : List Disk
  fault : Option Fault := none

/-- The disk at the end. -/
def Swap.disk (start : Disk) (s : Swap) : Disk := s.passed.getLastD start

namespace Swap

/-- The fewest digits of the number in a temporary name. -/
def nameDigits : Nat := 8

/-- The temporary name of a number for a target. -/
def temporaryName (target : Path) (n : Nat) : String :=
  let digits := toString n
  let zeros := String.ofList (List.replicate (nameDigits - digits.length) '0')
  "." ++ target.name ++ "." ++ zeros ++ digits ++ ".tmp"

/-- A temporary name that is free in a folder. -/
def freeName (d : Disk) (folder : Place) (target : Path) : String :=
  let names := (List.range (d.entries.length + 2)).map (temporaryName target)
  (names.find? fun name => (d.entry? (folder ++ [name])).isNone).getD (temporaryName target 0)

/-- Swaps in a file through a temporary one in the folder of the target. -/
def inFolder (hindrance : Hindrance) (d : Disk) (folder : Place) (target : Path)
    (bytes : List UInt8) : Swap :=
  let name := freeName d folder target
  let temporary := folder ++ [name]
  let beside : Path := { target.parent with parts := target.parent.parts ++ [name] }
  let shown := beside.toString
  let tooLong := if Disk.nameLimit < name.utf8ByteSize then some Refusal.nameTooLong else none
  match hindrance.create.or (tooLong.or (Disk.pathFault? beside)) with
  | some refusal => { passed := [], fault := some { refusal, path := shown } }
  | none =>
    let created := d.put temporary (.file [])
    match hindrance.write with
    | some (refusal, n) =>
      { passed := [created, d.put temporary (.file (bytes.take n)), created.erase temporary]
        fault := some { refusal, path := shown } }
    | none =>
      let written := d.put temporary (.file bytes)
      let refused (refusal : Refusal) : Swap :=
        { passed := [created, written, written.erase temporary]
          fault := some { refusal, path := shown, target := some target.toString } }
      match hindrance.rename, d.place target with
      | some refusal, _ => refused refusal
      | none, .error refusal => refused refusal
      | none, .ok place =>
        if !target.endsInName then refused .busy
        else if d.entry? place == some .folder then refused .isFolder
        else { passed := [created, written, (written.put place (.file bytes)).erase temporary] }

end Swap

/-- Replaces the file at the end of a path. -/
def swap (hindrance : Hindrance) (d : Disk) (target : Path) (bytes : List UInt8) : Swap :=
  if Disk.pathFault? target == some .zeroCharacter then
    { passed := [], fault := some { refusal := .zeroCharacter, path := target.toString } }
  else match d.place target.parent with
  | .error refusal => { passed := [], fault := some { refusal, path := target.parent.toString } }
  | .ok folder =>
    match d.entry? folder with
    | some .folder => Swap.inFolder hindrance d folder target bytes
    | some _ =>
      { passed := [], fault := some { refusal := .notFolder, path := target.parent.toString } }
    | none =>
      { passed := [], fault := some { refusal := .missing, path := target.parent.toString } }

end Scrawl.File
