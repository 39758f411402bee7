import CameraFleet.Network.Address
import CameraFleet.Registry

/-!
# Settings

The settings of a service, and where its cameras come from.
-/

namespace CameraFleet

namespace Settings

/-- The origins, methods and headers that other sites may use. -/
structure Cors where
  origins : List String
  methods : List String
  headers : List String
  deriving DecidableEq, Inhabited

/-- Whether one of the origins stands for all. -/
def Cors.hasWildcard (c : Cors) : Bool :=
  c.origins.any fun origin => Text.trim origin = "*"

/-- Where the cameras come from. -/
inductive CameraSource where
  /-- The settings file with this path. -/
  | inline (path : String)
  /-- The device list with this path. -/
  | file (path : String)
  /-- Nothing is configured, and the demo fleet is served. -/
  | demo
  deriving DecidableEq, Inhabited

end Settings

/-- The settings of a service. -/
structure Settings where
  host : String
  port : UInt16
  cors : Settings.Cors
  template : String
  policy : Policy
  cameras : List Camera
  devMode : Bool
  configPath : Option String
  envFileLoaded : Bool
  cameraSource : Settings.CameraSource
  deriving DecidableEq, Inhabited

namespace Settings

/-- The text of the address to listen on. -/
def addressText (s : Settings) : String :=
  s.host ++ ":" ++ Natural.toText s.port.toNat

/-- The address to listen on. -/
def address? (s : Settings) : Option Network.SocketAddress :=
  Network.SocketAddress.ofText? s.addressText

/-- What is said of a text that is no address. -/
def addressErrorMessage : String := "invalid socket address syntax"

/-- The options of the registry. -/
def registryOptions (s : Settings) : Except Failure Registry.Options :=
  match Preview.ofText s.template with
  | .ok preview => .ok ⟨preview, s.policy⟩
  | .error e => .error e

/-- The registry of the configured cameras. -/
def registry (s : Settings) : Except Failure Registry :=
  match s.registryOptions with
  | .ok options => Registry.ofCameras s.cameras options
  | .error e => .error e

end Settings

end CameraFleet
