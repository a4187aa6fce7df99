import Scrawl.Decimal.Numeral
import Scrawl.Decimal.Shortest
import Scrawl.Layout
import Scrawl.Text.Case
/-!
# Scrawl.Config — the settings of a rendering

Settings come in layers: the defaults, then what is given, then overrides.  A layer is applied as a
whole, and what comes of it must be in range; else the configuration stays as it was.  Environment
variables are read by their text.
-/

namespace Scrawl

/-- The settings of a rendering. -/
structure Config where
  sketchiness : Float := 0.5
  /-- None asks for fresh strokes each time. -/
  seed : Option Int := some 0
  delay : Float := 0.5
  padding : Float := 10.0
  margin : Float := 10.0
  fontFamily : String := "xkcd-script"
  fontPath : Option String := none
  fontSize : Float := 16.0
  engine : Engine := .auto

/-- Some of the settings; what is absent is left as it is. -/
structure Settings where
  sketchiness : Option Float := none
  seed : Option (Option Int) := none
  delay : Option Float := none
  padding : Option Float := none
  margin : Option Float := none
  fontFamily : Option String := none
  fontPath : Option String := none
  fontSize : Option Float := none
  engine : Option String := none

/-- The settings in the order in which they are read and checked. -/
inductive Setting
  | sketchiness
  | seed
  | delay
  | padding
  | margin
  | fontFamily
  | fontPath
  | fontSize
  | engine
  deriving DecidableEq

/-- All settings. -/
def Setting.all : List Setting :=
  [sketchiness, seed, delay, padding, margin, fontFamily, fontPath, fontSize, engine]

/-- Whether a setting is a number that has a range. -/
def Setting.isNumber : Setting → Bool
  | seed => false
  | fontFamily => false
  | fontPath => false
  | engine => false
  | _ => true

/-- The wording for a value that is none and is compared. -/
def notCompared (sign : String) : String :=
  "'" ++ sign ++ "' not supported between instances of 'list' and 'int'"

/-- The wording where a setting is needed that has no value. -/
def Setting.lackText : Setting → String
  | fontSize => notCompared "<="
  | fontFamily => "'list' object has no attribute 'lower'"
  | seed => "The only supported seed types are: None,\nint, float, str, bytes, and bytearray."
  | _ => notCompared "<"

/-- The environment variable of a setting. -/
def Setting.variable : Setting → String
  | sketchiness => "SKETCHGRAPH_SKETCHINESS"
  | seed => "SKETCHGRAPH_SEED"
  | delay => "SKETCHGRAPH_DELAY"
  | padding => "SKETCHGRAPH_PADDING"
  | margin => "SKETCHGRAPH_MARGIN"
  | fontFamily => "SKETCHGRAPH_FONT_FAMILY"
  | fontPath => "SKETCHGRAPH_FONT_PATH"
  | fontSize => "SKETCHGRAPH_FONT_SIZE"
  | engine => "SKETCHGRAPH_ENGINE"

/-- Why settings are refused. -/
inductive ConfigFault
  | negativeSketchiness (value : Float)
  | negativeDelay (value : Float)
  | negativeSpace
  | fontSize (value : Float)
  | engine (name : String)
  /-- The text of a variable is no number. -/
  | noNumber (setting : Setting) (text : String)
  /-- The text of the seed is no whole number. -/
  | noSeed (text : String)

/-- The wording of the fault. -/
def ConfigFault.message : ConfigFault → String
  | negativeSketchiness x => "sketchiness must be >= 0 (got " ++ Decimal.shortest x ++ ")"
  | negativeDelay x => "delay must be >= 0 (got " ++ Decimal.shortest x ++ ")"
  | negativeSpace => "padding and margin must be >= 0"
  | fontSize x => "font_size must be > 0 (got " ++ Decimal.shortest x ++ ")"
  | engine name =>
    "engine must be one of " ++ ", ".intercalate (Engine.all.map (·.name)) ++ " (got \"" ++ name ++
      "\")"
  | noNumber s text => s.variable ++ " must be a number (got " ++ Text.quoted text ++ ")"
  | noSeed text =>
    Setting.seed.variable ++ " must be an integer or 'none' (got " ++ Text.quoted text ++ ")"

namespace Config

/-- The configuration with settings in place of its own, all but the engine. -/
def overlay (c : Config) (s : Settings) : Config :=
  { c with
    sketchiness := s.sketchiness.getD c.sketchiness
    seed := s.seed.getD c.seed
    delay := s.delay.getD c.delay
    padding := s.padding.getD c.padding
    margin := s.margin.getD c.margin
    fontFamily := s.fontFamily.getD c.fontFamily
    fontPath := s.fontPath.or c.fontPath
    fontSize := s.fontSize.getD c.fontSize }

/-- What is wrong with the range of a setting.  A number out of range is one that compares as such,
so that what is no number is passed over. -/
def rangeFault? (c : Config) : Setting → Option ConfigFault
  | .sketchiness =>
    if c.sketchiness < 0.0 then some (.negativeSketchiness c.sketchiness) else none
  | .delay => if c.delay < 0.0 then some (.negativeDelay c.delay) else none
  | .padding => if c.padding < 0.0 then some .negativeSpace else none
  | .margin => if c.margin < 0.0 then some .negativeSpace else none
  | .fontSize => if c.fontSize ≤ 0.0 then some (.fontSize c.fontSize) else none
  | _ => none

/-- The configuration with settings applied, if it is in range. -/
def apply (c : Config) (s : Settings) : Except ConfigFault Config :=
  let changed := c.overlay s
  match Setting.all.findSome? changed.rangeFault?, s.engine with
  | some fault, _ => .error fault
  | none, none => .ok changed
  | none, some name =>
    match Engine.ofName? name with
    | some engine => .ok { changed with engine }
    | none => .error (.engine name)

/-- The configuration of some settings over the defaults. -/
def ofSettings (s : Settings) : Except ConfigFault Config := apply {} s

end Config

namespace Settings

/-- Reads the number of a variable. -/
def readNumber (setting : Setting) (text : String) : Except ConfigFault Float :=
  match Decimal.readFloat? text with
  | some x => .ok x
  | none => .error (.noNumber setting text)

/-- Reads a seed, or the wish for none. -/
def readSeed (text : String) : Except ConfigFault (Option Int) :=
  if ["none", "random"].contains (Text.lower (Text.strip text)) then .ok none
  else
    match Decimal.readInt? text with
    | some n => .ok (some n)
    | none => .error (.noSeed text)

/-- Adds the setting that a variable gives. -/
def read (s : Settings) (setting : Setting) (text : String) : Except ConfigFault Settings :=
  match setting with
  | .sketchiness => (readNumber setting text).map fun x => { s with sketchiness := some x }
  | .seed => (readSeed text).map fun n => { s with seed := some n }
  | .delay => (readNumber setting text).map fun x => { s with delay := some x }
  | .padding => (readNumber setting text).map fun x => { s with padding := some x }
  | .margin => (readNumber setting text).map fun x => { s with margin := some x }
  | .fontFamily => .ok { s with fontFamily := some text }
  | .fontPath => .ok { s with fontPath := some text }
  | .fontSize => (readNumber setting text).map fun x => { s with fontSize := some x }
  | .engine => .ok { s with engine := some text }

/-- Reads all settings from an environment; an empty variable counts as absent. -/
def ofEnvironment (value? : String → Option String) : Except ConfigFault Settings :=
  Setting.all.foldlM (fun s setting =>
    match value? setting.variable with
    | none => .ok s
    | some text => if text.isEmpty then .ok s else s.read setting text) {}

end Settings

/-- The configuration that an environment gives. -/
def Config.ofEnvironment (value? : String → Option String) : Except ConfigFault Config := do
  Config.ofSettings (← Settings.ofEnvironment value?)

end Scrawl
