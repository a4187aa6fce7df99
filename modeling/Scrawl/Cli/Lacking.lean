import Scrawl.Cli.Arguments
import Scrawl.Pipeline
/-!
# Scrawl.Cli.Lacking — settings without a value

An option may be left without a value, and then the setting that it gives lacks one.  A number is
missed as soon as its range is checked, a font family when a font is loaded, and a seed when the
strokes begin.
-/

namespace Scrawl.Cli

/-- The settings that options leave without a value. -/
def Arguments.lacking (a : Arguments) : List Setting := a.valueless.filterMap Opt.setting?

/-- A check of settings that fails. -/
inductive SettingFault
  | refused (fault : ConfigFault)
  | lacking (setting : Setting)

/-- What is wrong with a setting of a configuration. -/
def settingFault? (lacking : List Setting) (c : Config) (s : Setting) : Option SettingFault :=
  if s.isNumber && lacking.contains s then some (.lacking s)
  else (c.rangeFault? s).map .refused

/-- The configuration with settings applied, some of which lack a value. -/
def applyLacking (lacking : List Setting) (c : Config) (s : Settings) :
    Except SettingFault Config :=
  match Setting.all.findSome? (settingFault? lacking (c.overlay s)) with
  | some fault => .error fault
  | none => (c.apply s).mapError .refused

/-- Renders a description with a configuration that lacks settings. -/
def runLacking (lacking : List Setting) (r : Resources) (c : Config) (text : String) :
    Run Scene :=
  let loadsFont := match Description.read text with
    | .ok g => Pipeline.loadsFont c g
    | .error _ => false
  if lacking.contains .fontFamily && loadsFont then ⟨[], .error (.lacking .fontFamily)⟩
  else if lacking.contains .seed then
    let prepared := Pipeline.prepare r c text
    ⟨prepared.notes, prepared.result.bind fun _ => .error (.lacking .seed)⟩
  else Pipeline.run r c text

end Scrawl.Cli
