import Scrawl.Cli.Options
/-!
# Scrawl.Cli.Arguments — reading an argument list

An argument is an option or stands for itself; after two dashes all stand for themselves.  A long
option may be cut short as long as it is the only one that starts so, and may have its value after
an equals sign; short options may be written together.  What no option or command takes is an error,
but only once all else is in order.

Two dashes that are attached to an option as its value leave the option without one.  That is no
error of the list: it shows where the value is needed.
-/

namespace Scrawl.Cli

/-- What an argument list asks for. -/
structure Arguments where
  errorFormat : Format := .text
  verbose : Bool := false
  command : Option Command := none
  input : Option String := none
  text : Option String := none
  output : Option String := none
  toStdout : Bool := false
  once : Bool := false
  /-- The seconds between two looks at a watched file. -/
  poll : Float := 0.25
  noSeed : Bool := false
  settings : Settings := {}
  /-- The options that have no value. -/
  valueless : List Opt := []

/-- Why an argument list is refused. -/
inductive ArgumentFault
  | ambiguous (spelled : String) (matching : List String)
  | missingValue (option : Opt)
  | unwantedValue (option : Opt) (value : String)
  | noNumber (option : Opt) (value : String)
  | noWhole (option : Opt) (value : String)
  | noChoice (option : Opt) (value : String) (choices : List String)
  | noCommand (name : String)
  | conflict (option other : Opt)
  | missingInput
  | unrecognized (rest : List String)
  deriving DecidableEq

namespace ArgumentFault

/-- The wording for a value that is not among the choices. -/
def choiceText (label value : String) (choices : List String) : String :=
  "argument " ++ label ++ ": invalid choice: " ++ Text.quoted value ++ " (choose from " ++
    ", ".intercalate (choices.map Text.quoted) ++ ")"

/-- The wording of the fault. -/
def message : ArgumentFault → String
  | ambiguous spelled matching =>
    "ambiguous option: " ++ spelled ++ " could match " ++ ", ".intercalate matching
  | missingValue o => "argument " ++ o.label ++ ": expected one argument"
  | unwantedValue o value =>
    "argument " ++ o.label ++ ": ignored explicit argument " ++ Text.quoted value
  | noNumber o value => "argument " ++ o.label ++ ": invalid float value: " ++ Text.quoted value
  | noWhole o value => "argument " ++ o.label ++ ": invalid int value: " ++ Text.quoted value
  | noChoice o value choices => choiceText o.label value choices
  | noCommand name => choiceText "command" name (Command.all.map (·.name))
  | conflict o other => "argument " ++ o.label ++ ": not allowed with argument " ++ other.label
  | missingInput => "the following arguments are required: input"
  | unrecognized rest => "unrecognized arguments: " ++ " ".intercalate rest

end ArgumentFault

/-- Why reading stops early. -/
inductive Stop
  | fault (fault : ArgumentFault)
  /-- Help about the program or a command is asked for. -/
  | help (command : Option Command)

/-! ### Words -/

/-- An option as it is spelled out. -/
structure Meaning where
  option : Opt
  spelling : String
  /-- The value that is attached to it. -/
  attached : Option (List Char) := none

/-- An argument. -/
inductive Word
  | plain (s : String)
  /-- Two dashes. -/
  | divider
  /-- Spelled as an option, which may be none of those known. -/
  | option (s : String) (meaning : Option Meaning)

/-- The argument as it was given. -/
def Word.spelled : Word → String
  | plain s => s
  | divider => "--"
  | option s _ => s

/-- The spellings of options, each with its option. -/
def spellings (options : List Opt) : List (String × Opt) :=
  options.flatMap fun o => o.names.map fun name => (name, o)

/-- What stands before the first equals sign, and what stands after it if there is one. -/
def splitMark (cs : List Char) : List Char × Option (List Char) :=
  match cs.span (· != '=') with
  | (front, []) => (front, none)
  | (front, _ :: back) => (front, some back)

/-- Whether an argument is a negative number, which a line feed may follow. -/
def isNegativeNumber (s : String) : Bool :=
  match s.toList with
  | '-' :: cs =>
    let cs := if cs.getLast? == some '\n' then cs.dropLast else cs
    let (whole, rest) := cs.span Text.isDigit
    match rest with
    | [] => !whole.isEmpty
    | '.' :: digits => !digits.isEmpty && digits.all Text.isDigit
    | _ => false
  | _ => false

/-- What an argument in dashes that is no full spelling may mean. -/
def meanings (known : List (String × Opt)) : List Char → List Meaning
  | '-' :: '-' :: cs =>
    let (front, back) := splitMark ('-' :: '-' :: cs)
    let fits := known.filter fun k => front.isPrefixOf k.1.toList
    fits.map fun k => ⟨k.2, k.1, back⟩
  | '-' :: c :: cs =>
    let fits := known.filter fun k => k.1.toList == ['-', c]
    fits.map fun k => ⟨k.2, k.1, some cs⟩
  | _ => []

/-- The full spelling in front of an equals sign. -/
def markedMeaning? (known : List (String × Opt)) (s : String) : Option Meaning :=
  match splitMark s.toList with
  | (front, some back) =>
    let spelling := String.ofList front
    (known.lookup spelling).map fun o => ⟨o, spelling, some back⟩
  | (_, none) => none

/-- Reads an argument that starts with a dash. -/
def readDashed (known : List (String × Opt)) (s : String) : Except ArgumentFault Word :=
  match known.lookup s, markedMeaning? known s with
  | some o, _ => .ok (.option s (some ⟨o, s, none⟩))
  | none, some m => .ok (.option s (some m))
  | none, none =>
    match meanings known s.toList with
    | [m] => .ok (.option s (some m))
    | [] => .ok (if isNegativeNumber s || s.contains ' ' then .plain s else .option s none)
    | several => .error (.ambiguous s (several.map (·.spelling)))

/-- Reads the arguments one by one. -/
def readWords (known : List (String × Opt)) : List String → Except ArgumentFault (List Word)
  | [] => .ok []
  | s :: rest =>
    if s == "--" then .ok (.divider :: rest.map .plain)
    else
      match s.toList with
      | '-' :: _ :: _ =>
        match readDashed known s with
        | .ok word => (readWords known rest).map (word :: ·)
        | .error fault => .error fault
      | _ => (readWords known rest).map (.plain s :: ·)

/-! ### Options -/

/-- Notes an option that stands alone. -/
def Arguments.flag (a : Arguments) (level : Option Command) : Opt → Except Stop Arguments
  | .help => .error (.help level)
  | .verbose => .ok { a with verbose := true }
  | .stdout => .ok { a with toStdout := true }
  | .once => .ok { a with once := true }
  | .noSeed =>
    if a.settings.seed.isSome then .error (.fault (.conflict .noSeed .seed))
    else .ok { a with noSeed := true }
  | _ => .ok a

/-- Reads the number that an option takes. -/
def number (o : Opt) (value : String) : Except ArgumentFault Float :=
  match Decimal.readFloat? value with
  | some x => .ok x
  | none => .error (.noNumber o value)

/-- Notes a seed. -/
def Arguments.withSeed (a : Arguments) (value : String) : Except ArgumentFault Arguments :=
  match Decimal.readInt? value with
  | none => .error (.noWhole .seed value)
  | some n =>
    if a.noSeed then .error (.conflict .seed .noSeed)
    else .ok { a with settings := { a.settings with seed := some (some n) } }

/-- Notes what an option is given for its value. -/
def Arguments.value (a : Arguments) (o : Opt) (value : String) : Except ArgumentFault Arguments :=
  let s := a.settings
  match o with
  | .errorFormat =>
    match Format.ofName? value with
    | some f => .ok { a with errorFormat := f }
    | none => .error (.noChoice o value (Format.all.map (·.name)))
  | .engine =>
    match Engine.ofName? value with
    | some e => .ok { a with settings := { s with engine := some e.name } }
    | none => .error (.noChoice o value (Engine.all.map (·.name)))
  | .seed => a.withSeed value
  | .text => .ok { a with text := some value }
  | .output => .ok { a with output := some value }
  | .fontFamily => .ok { a with settings := { s with fontFamily := some value } }
  | .fontPath => .ok { a with settings := { s with fontPath := some value } }
  | .poll => (number o value).map fun x => { a with poll := x }
  | .delay => (number o value).map fun x => { a with settings := { s with delay := some x } }
  | .sketchiness =>
    (number o value).map fun x => { a with settings := { s with sketchiness := some x } }
  | .fontSize => (number o value).map fun x => { a with settings := { s with fontSize := some x } }
  | .padding => (number o value).map fun x => { a with settings := { s with padding := some x } }
  | .margin => (number o value).map fun x => { a with settings := { s with margin := some x } }
  | _ => .ok a

/-- How a value that is none is shown. -/
def noValueText : String := "[]"

/-- Notes an option without a value.  A text is then empty; what the other options lack shows when
they are used. -/
def Arguments.noValue (a : Arguments) (o : Opt) : Except ArgumentFault Arguments :=
  let s := a.settings
  match o with
  | .errorFormat => .ok { a with errorFormat := .text }
  | .text => .ok { a with text := some "" }
  | .output => .ok { a with output := some "" }
  | .fontPath => .ok { a with settings := { s with fontPath := some "" } }
  | .fontFamily => .ok { a with settings := { s with fontFamily := some noValueText } }
  | .engine => .ok { a with settings := { s with engine := some noValueText } }
  | .seed =>
    if a.noSeed then .error (.conflict .seed .noSeed)
    else .ok { a with settings := { s with seed := some none } }
  | _ => .ok a

/-- Notes an option with its value. -/
def Arguments.option (a : Arguments) (o : Opt) (value : String) : Except ArgumentFault Arguments :=
  let others := a.valueless.filter (· != o)
  if value == "--" then { a with valueless := o :: others }.noValue o
  else { a with valueless := others }.value o value

/-- How a word of options ends. -/
inductive Ending
  | flag
  /-- The value is the next argument. -/
  | next (option : Opt)
  | value (option : Opt) (value : String)

namespace Ending

/-- The ending with the value in it, and the words that are left. -/
def settle : Ending → List Word → Except ArgumentFault (Ending × List Word)
  | next o, .plain s :: rest => .ok (.value o s, rest)
  | next o, _ => .error (.missingValue o)
  | ending, rest => .ok (ending, rest)

theorem settle_length_le {ending settled : Ending} {rest left : List Word}
    (h : ending.settle rest = .ok (settled, left)) : left.length ≤ rest.length := by
  unfold settle at h
  split at h <;> grind

end Ending

/-- The options of a word: those that stand alone, in order, and the ending. -/
def unfold (known : List (String × Opt)) (o : Opt) (spelling : String)
    (attached : Option (List Char)) : Except ArgumentFault (List Opt × Ending) :=
  match attached with
  | none => .ok (if o.isFlag then ([o], .flag) else ([], .next o))
  | some value =>
    let unwanted : Except ArgumentFault (List Opt × Ending) :=
      .error (.unwantedValue o (String.ofList value))
    if !o.isFlag then .ok ([], .value o (String.ofList value))
    else if spelling.startsWith "--" then unwanted
    else
      match value with
      | [] => unwanted
      | c :: rest =>
        let short := String.ofList ['-', c]
        match known.lookup short, rest with
        | none, _ => unwanted
        | some next, [] => (unfold known next short none).map fun u => (o :: u.1, u.2)
        | some next, d :: more =>
          (unfold known next short (some (d :: more))).map fun u => (o :: u.1, u.2)
termination_by (attached.map fun cs => cs.length + 1).getD 0

/-! ### The list -/

/-- What stands for itself in a list. -/
inductive Operand
  | command
  | input (required : Bool)
  | nothing
  deriving DecidableEq

/-- The operand in front of the command's arguments, or among them. -/
def Operand.of : Option Command → Operand
  | none => .command
  | some .render => .input false
  | some .watch => .input true
  | some _ => .nothing

/-- What is read of a list so far. -/
structure Reading where
  arguments : Arguments := {}
  /-- What nothing has taken. -/
  extras : List String := []
  /-- Whether the input has been read. -/
  hasInput : Bool := false

namespace Reading

/-- The reading with what nothing takes. -/
def extra (r : Reading) (s : String) : Reading := { r with extras := r.extras ++ [s] }

/-- The reading with the input. -/
def input (r : Reading) (s : String) : Reading :=
  { r with arguments := { r.arguments with input := some s }, hasInput := true }

/-- Notes options that stand alone. -/
def flags (r : Reading) (level : Option Command) (options : List Opt) : Except Stop Reading :=
  (options.foldlM (fun (a : Arguments) o => a.flag level o) r.arguments).map fun arguments =>
    { r with arguments }

/-- Notes an option with its value. -/
def option (r : Reading) (o : Opt) (value : String) : Except Stop Reading :=
  match r.arguments.option o value with
  | .ok arguments => .ok { r with arguments }
  | .error fault => .error (.fault fault)

end Reading

/-- Notes the options of a word. -/
def Reading.take (r : Reading) (level : Option Command) (flags : List Opt) (ending : Ending) :
    Except Stop Reading := do
  let r ← r.flags level flags
  match ending with
  | .value o value => r.option o value
  | _ => return r

/-- Drops two dashes that stand in front. -/
def dropDivider : List Word → List Word
  | .divider :: rest => rest
  | words => words

theorem dropDivider_length_le (words : List Word) :
    (dropDivider words).length ≤ words.length := by
  unfold dropDivider
  split <;> simp

/-- Reads words at a level; at that of the program it ends at the command, with the arguments from
there on. -/
def scan (level : Option Command) (r : Reading) (words : List Word) :
    Except Stop (Reading × List String) :=
  match words with
  | [] => .ok (r, [])
  | .plain s :: rest =>
    match Operand.of level, r.hasInput with
    | .command, _ => .ok (r, s :: rest.map (·.spelled))
    | .input _, false =>
      have := dropDivider_length_le rest
      scan level (r.input s) (dropDivider rest)
    | _, _ => scan level (r.extra s) rest
  | [.divider] =>
    match Operand.of level, r.hasInput with
    | .input false, false => .ok ({ r with hasInput := true }, [])
    | _, _ => .ok (r.extra "--", [])
  | .divider :: next :: rest =>
    match Operand.of level, r.hasInput with
    | .command, _ => .ok (r, "--" :: next.spelled :: rest.map (·.spelled))
    | .input _, false => scan level (r.input next.spelled) rest
    | _, _ => scan level (r.extra "--") (next :: rest)
  | .option s none :: rest => scan level (r.extra s) rest
  | .option _ (some m) :: rest =>
    match unfold (spellings (Command.options level)) m.option m.spelling m.attached with
    | .error fault => .error (.fault fault)
    | .ok (flags, ending) =>
      match h : ending.settle rest with
      | .error fault => .error (.fault fault)
      | .ok (ending, left) =>
        have := Ending.settle_length_le h
        match r.take level flags ending with
        | .error stop => .error stop
        | .ok r => scan level r left
termination_by words.length

/-- Reads the arguments of a level. -/
def readLevel (level : Option Command) (r : Reading) (args : List String) :
    Except Stop (Reading × List String) :=
  match readWords (spellings (Command.options level)) args with
  | .error fault => .error (.fault fault)
  | .ok words =>
    match scan level { r with hasInput := false } words with
    | .error stop => .error stop
    | .ok (r, rest) =>
      if Operand.of level == .input true && !r.hasInput then .error (.fault .missingInput)
      else .ok (r, rest)

/-- Reads the command and its arguments. -/
def readCommand (r : Reading) : List String → Except Stop Reading
  | [] => .ok r
  | name :: args =>
    match Command.ofName? name with
    | none => .error (.fault (.noCommand name))
    | some c =>
      let r := { r with arguments := { r.arguments with command := some c } }
      (readLevel (some c) r args).map (·.1)

/-- Reads an argument list. -/
def Arguments.read (args : List String) : Except Stop Arguments := do
  let (r, rest) ← readLevel none {} args
  let r ← readCommand r rest
  if r.extras.isEmpty then return r.arguments
  else throw (.fault (.unrecognized r.extras))

/-- The format of errors as far as it can be told before the list is read: what follows the first
full spelling of the option. -/
def formatBefore (args : List String) : Format :=
  match args.dropWhile (· != "--error-format") with
  | _ :: name :: _ => if name == "json" then .json else .text
  | _ => .text

end Scrawl.Cli
