import Scrawl.Config
/-!
# Scrawl.Cli.Options — commands and their options

The options in front of the command are those of the program; each command has its own.  The order
of the options is the order in which messages list them.
-/

namespace Scrawl.Cli

/-- The commands. -/
inductive Command
  | render
  | watch
  | grammar
  | sample
  deriving DecidableEq

namespace Command

/-- The commands, in the order in which messages list them. -/
def all : List Command := [render, watch, grammar, sample]

/-- The name of a command. -/
def name : Command → String
  | render => "render"
  | watch => "watch"
  | grammar => "grammar"
  | sample => "example"

/-- The command of a name. -/
def ofName? (s : String) : Option Command := all.find? (·.name == s)

end Command

/-- How errors are shown. -/
inductive Format
  | text
  | json
  deriving DecidableEq

namespace Format

/-- The formats, in the order in which messages list them. -/
def all : List Format := [text, json]

/-- The name of a format. -/
def name : Format → String
  | text => "text"
  | json => "json"

/-- The format of a name. -/
def ofName? (s : String) : Option Format := all.find? (·.name == s)

end Format

/-- The options of the program and of all commands. -/
inductive Opt
  | help
  | errorFormat
  | debug
  | verbose
  | text
  | stdout
  | output
  | delay
  | poll
  | once
  | sketchiness
  | seed
  | noSeed
  | engine
  | fontFamily
  | fontPath
  | fontSize
  | padding
  | margin
  deriving DecidableEq

/-- What follows an option. -/
inductive Takes
  | nothing
  | text
  | number
  | whole
  | oneOf (names : List String)

namespace Opt

/-- The spellings of an option; a short one has one dash and one letter. -/
def names : Opt → List String
  | help => ["-h", "--help"]
  | errorFormat => ["--error-format"]
  | debug => ["--debug"]
  | verbose => ["-v", "--verbose"]
  | text => ["--text"]
  | stdout => ["--stdout"]
  | output => ["-o", "--output"]
  | delay => ["--delay"]
  | poll => ["--poll"]
  | once => ["--once"]
  | sketchiness => ["--sketchiness"]
  | seed => ["--seed"]
  | noSeed => ["--no-seed"]
  | engine => ["--engine"]
  | fontFamily => ["--font-family"]
  | fontPath => ["--font-path"]
  | fontSize => ["--font-size"]
  | padding => ["--padding"]
  | margin => ["--margin"]

/-- The option as messages name it. -/
def label (o : Opt) : String := "/".intercalate o.names

/-- What follows the option. -/
def takes : Opt → Takes
  | help => .nothing
  | errorFormat => .oneOf (Format.all.map (·.name))
  | debug => .nothing
  | verbose => .nothing
  | text => .text
  | stdout => .nothing
  | output => .text
  | delay => .number
  | poll => .number
  | once => .nothing
  | sketchiness => .number
  | seed => .whole
  | noSeed => .nothing
  | engine => .oneOf (Engine.all.map (·.name))
  | fontFamily => .text
  | fontPath => .text
  | fontSize => .number
  | padding => .number
  | margin => .number

/-- Whether the option stands alone. -/
def isFlag (o : Opt) : Bool :=
  match o.takes with
  | .nothing => true
  | _ => false

/-- The setting that an option gives. -/
def setting? : Opt → Option Setting
  | delay => some .delay
  | sketchiness => some .sketchiness
  | seed => some .seed
  | engine => some .engine
  | fontFamily => some .fontFamily
  | fontPath => some .fontPath
  | fontSize => some .fontSize
  | padding => some .padding
  | margin => some .margin
  | _ => none

/-- The options of a rendering. -/
def rendering : List Opt :=
  [sketchiness, seed, noSeed, engine, fontFamily, fontPath, fontSize, padding, margin]

end Opt

namespace Command

/-- The options in front of the command, or of a command. -/
def options : Option Command → List Opt
  | none => [.help, .errorFormat, .debug, .verbose]
  | some render => [.help, .text, .stdout, .output] ++ Opt.rendering
  | some watch => [.help, .output, .delay, .poll, .once] ++ Opt.rendering
  | some grammar => [.help]
  | some sample => [.help]

end Command

end Scrawl.Cli
