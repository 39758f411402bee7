import CameraFleet.DemoFleet
import CameraFleet.Http.Token
import CameraFleet.Settings.Basic
import CameraFleet.Settings.DeviceList
import CameraFleet.Settings.Disk
import CameraFleet.Settings.DotEnv
import CameraFleet.Settings.FileSettings
import CameraFleet.Settings.Path

/-!
# Loading settings

A setting comes from the environment, or else from the settings file, or else has a value of its
own. What is named explicitly is never passed over: a settings file or a device list that cannot
be read is an error. The settings as a whole have to pass some checks, and may give rise to
warnings.
-/

namespace CameraFleet.Settings

/-- Why settings cannot be used. -/
inductive Problem where
  | noMethods
  | invalidMethod (name : String)
  | invalidHeader (name : String)
  | incompleteTemplate (template : String)
  | noCameras
  deriving DecidableEq

def Problem.message : Problem → String
  | .noMethods =>
    "invalid CORS configuration: CORS_ALLOWED_METHODS must include at least one HTTP method"
  | .invalidMethod name =>
    "invalid CORS configuration: invalid HTTP method `" ++ name ++ "` in CORS_ALLOWED_METHODS"
  | .invalidHeader name =>
    "invalid CORS configuration: invalid header name `" ++ name ++ "` in CORS_ALLOWED_HEADERS"
  | .incompleteTemplate template =>
    "preview URL template `" ++ template ++ "` must contain \x7bwidth\x7d and \x7bheight\x7d"
  | .noCameras => "the device list is empty; configure at least one camera"

/-- Why settings cannot be loaded. -/
inductive LoadError where
  | missingConfig (path : String)
  | unreadable (path : String)
  | malformedConfig (path : String)
  | malformedCameraList (path : String)
  | invalidPolicy (e : Policy.Unknown)
  | problem (p : Problem)
  /-- A line of the file of variables means nothing. -/
  | malformedEnvFile
  deriving DecidableEq

def LoadError.message : LoadError → String
  | .missingConfig path => "configuration file missing: " ++ path
  | .unreadable path => "failed to read " ++ path
  | .malformedConfig path => "failed to parse configuration " ++ path
  | .malformedCameraList path => "failed to parse camera list " ++ path
  | .invalidPolicy e => "invalid QUALITY_POLICY: " ++ e.message
  | .problem p => p.message
  | .malformedEnvFile => "malformed line in the .env file"

/-- What is worth telling about settings that can be used. -/
inductive Warning where
  | noConfigFile
  | demoFleet
  | wildcardOrigin
  deriving DecidableEq

def Warning.message : Warning → String
  | .noConfigFile => "No ferrocam.toml detected; falling back to environment variables"
  | .demoFleet => "No cameras configured; serving the built-in demo fleet"
  | .wildcardOrigin => "CORS wildcard origin allowed outside DEV_MODE"

/-- What can be done about it. -/
def Warning.hint : Warning → String
  | .noConfigFile => "Create ferrocam.toml or point FERROCAM_CONFIG at a config file"
  | .demoFleet => "Add [[cameras]] tables to ferrocam.toml or set CAMERAS_PATH"
  | .wildcardOrigin => "List the UI origins explicitly in CORS_ALLOWED_ORIGINS"

/-- Settings with the warnings about them. -/
structure Loaded where
  settings : Settings
  warnings : List Warning
  deriving DecidableEq

/-! ## Checks -/

/-- The first thing in the way of using the settings. -/
def problem? (s : Settings) : Option Problem :=
  if !Preview.isComplete s.template then some (.incompleteTemplate s.template)
  else if s.cameras.isEmpty then some .noCameras
  else if s.cors.methods.isEmpty then some .noMethods
  else match s.cors.methods.find? (!Http.isMethod ·) with
    | some name => some (.invalidMethod name)
    | none => (s.cors.headers.find? (!Http.isHeaderName ·)).map .invalidHeader

/-- A wildcard among the origins is worth a warning, except during development. -/
def originWarnings (s : Settings) : List Warning :=
  if !s.devMode && s.cors.hasWildcard then [.wildcardOrigin] else []

/-! ## Sources -/

/-- The places where a settings file is looked for. -/
def defaultPaths : List String :=
  ["ferrocam.toml", "config/ferrocam.toml"]

/-- What a caller of the loader asks for. -/
structure LoadOptions where
  configPath : Option String
  envFile : Option String
  deriving DecidableEq, Inhabited

/-- Reads the settings file with a path. -/
def readFile (disk : Disk) (path : String) : Except LoadError FileSettings :=
  match disk.text? path with
  | none => .error (.unreadable path)
  | some s =>
    match FileSettings.parse? s with
    | some file => .ok file
    | none => .error (.malformedConfig path)

/-- The settings file, and its path: the one asked for, or the one that the environment names, or
the first that is found in the places for it. -/
def findFile (disk : Disk) (options : LoadOptions) (env : Overrides) :
    Except LoadError (Option (String × FileSettings)) :=
  match options.configPath.or env.configPath with
  | some path =>
    if disk.contains path then (readFile disk path).map fun file => some (path, file)
    else .error (.missingConfig path)
  | none =>
    match defaultPaths.find? disk.contains with
    | some path => (readFile disk path).map fun file => some (path, file)
    | none => .ok none

/-- The cameras of a device list. -/
def readCameras (disk : Disk) (path : String) : Except LoadError (List Camera) :=
  match disk.text? path with
  | none => .error (.unreadable path)
  | some s =>
    match DeviceList.parse? s with
    | some cameras => .ok cameras
    | none => .error (.malformedCameraList path)

/-- The path of the device list: the one that the environment names, or else the one in the
settings file, taken from the directory of that file. -/
def camerasPath? (configPath : Option String) (file : FileSettings) (env : Overrides) :
    Option String :=
  env.camerasPath.or (file.camerasPath.map fun path => Path.resolve path configPath)

/-- The cameras and where they come from: a device list, or else those of the settings file, or
else the demo fleet. -/
def findCameras (disk : Disk) (configPath : Option String) (file : FileSettings)
    (env : Overrides) : Except LoadError (List Camera × CameraSource) :=
  match camerasPath? configPath file env with
  | some path => (readCameras disk path).map fun cameras => (cameras, .file path)
  | none =>
    if file.cameras.isEmpty then .ok (DemoFleet.cameras, .demo)
    else .ok (file.cameras, .inline (configPath.getD "ferrocam.toml"))

/-! ## Putting together -/

/-- The value of a setting: from the environment, or else from the file, or else its own. -/
def choose {α : Type} (env file : Option α) (own : α) : α :=
  (env.or file).getD own

/-- The policy: from the environment, where it is a text, or else from the file. -/
def choosePolicy (env : Option String) (file : Option Policy) : Except LoadError Policy :=
  match env with
  | some s =>
    match Policy.ofText s with
    | .ok p => .ok p
    | .error e => .error (.invalidPolicy e)
  | none => .ok (file.getD .permissive)

/-- Puts the settings together and checks them. -/
def compose (disk : Disk) (configPath : Option String) (file : FileSettings) (env : Overrides)
    (envFileLoaded : Bool) : Except LoadError Loaded :=
  match choosePolicy env.policy file.policy with
  | .error e => .error e
  | .ok policy =>
    match findCameras disk configPath file env with
    | .error e => .error e
    | .ok (cameras, source) =>
      let settings : Settings := {
        host := choose env.host file.host "0.0.0.0"
        port := choose env.port file.port 8080
        cors := {
          origins := choose env.origins file.origins
            ["http://localhost:5173", "http://localhost:8080"]
          methods := choose env.methods file.methods ["GET", "POST", "OPTIONS"]
          headers := choose env.headers file.headers ["Content-Type"] }
        template := choose env.template file.template Preview.defaultTemplate
        policy, cameras
        devMode := choose env.devMode file.devMode false
        configPath, envFileLoaded
        cameraSource := source }
      match problem? settings with
      | some p => .error (.problem p)
      | none => .ok {
          settings
          warnings :=
            (if configPath.isNone then [.noConfigFile] else []) ++
              (if source = .demo then [.demoFleet] else []) ++ originWarnings settings }

/-- Loads the settings, given what the environment says about them. -/
def loadFrom (disk : Disk) (options : LoadOptions) (env : Overrides) (envFileLoaded : Bool) :
    Except LoadError Loaded :=
  match findFile disk options env with
  | .error e => .error e
  | .ok none => compose disk none .none env envFileLoaded
  | .ok (some (path, file)) => compose disk (some path) file env envFileLoaded

/-- Loads the settings from the environment and the files; first the file of variables, if it can
be read. Where none is named it is the one in the working directory. No other is looked for in the
directories above, of which nothing is known. -/
def load (disk : Disk) (options : LoadOptions) (environment : Environment) :
    Except LoadError Loaded :=
  match disk.file? (options.envFile.getD ".env") with
  | none => loadFrom disk options (.ofEnvironment environment) false
  | some bytes =>
    match DotEnv.load? environment bytes with
    | none => .error .malformedEnvFile
    | some (environment, all) => loadFrom disk options (.ofEnvironment environment) all

end CameraFleet.Settings
