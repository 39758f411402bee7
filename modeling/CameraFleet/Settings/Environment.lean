import CameraFleet.Number.Natural
import CameraFleet.Text.Ascii
import CameraFleet.Text.Blank
import CameraFleet.Text.Split

/-!
# The environment

The variables that override settings. A list is written with commas, a switch as one of several
words; a port or switch that cannot be read counts as not given, and so does a blank template or
policy.
-/

namespace CameraFleet.Settings

/-- Variables with their values. -/
abbrev Environment := List (String × String)

/-- The settings that the environment gives. -/
structure Overrides where
  configPath : Option String
  host : Option String
  port : Option UInt16
  origins : Option (List String)
  methods : Option (List String)
  headers : Option (List String)
  devMode : Option Bool
  template : Option String
  /-- The text of a policy, which is read when the settings are put together. -/
  policy : Option String
  camerasPath : Option String
  deriving DecidableEq, Inhabited

namespace Overrides

def none : Overrides :=
  ⟨.none, .none, .none, .none, .none, .none, .none, .none, .none, .none⟩

/-- The parts of a list, trimmed, without the blank ones. -/
def splitList (s : String) : List String :=
  ((Text.splitOn ',' s.toList).map (String.ofList <| Text.stripBy Text.isBlank ·)).filter (· ≠ "")

/-- The value of a switch. -/
def switch? (s : String) : Option Bool :=
  let word := Text.lower (Text.trim s)
  if word ∈ ["1", "true", "yes", "on"] then some true
  else if word ∈ ["0", "false", "no", "off"] then some false
  else .none

/-- The number of a port. -/
def port? (s : String) : Option UInt16 :=
  (Natural.word? UInt16.size s.toList).map UInt16.ofNat

/-- The value of a variable, unless it is blank. -/
def nonBlank? (env : Environment) (name : String) : Option String :=
  (env.lookup name).filter (!Text.isBlankText ·)

/-- The settings that an environment gives. -/
def ofEnvironment (env : Environment) : Overrides where
  configPath := env.lookup "FERROCAM_CONFIG"
  host := env.lookup "SERVER_HOST"
  port := (env.lookup "SERVER_PORT").bind port?
  origins := (env.lookup "CORS_ALLOWED_ORIGINS").map splitList
  methods := (env.lookup "CORS_ALLOWED_METHODS").map splitList
  headers := (env.lookup "CORS_ALLOWED_HEADERS").map splitList
  devMode := (env.lookup "DEV_MODE").bind switch?
  template := nonBlank? env "PREVIEW_URL_TEMPLATE"
  policy := nonBlank? env "QUALITY_POLICY"
  camerasPath := env.lookup "CAMERAS_PATH"

end Overrides

end CameraFleet.Settings
