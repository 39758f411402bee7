import CameraFleet.Http.Message

/-!
# Routes

The paths of the service, and the methods that they answer.
-/

namespace CameraFleet

inductive Route where
  | ping
  | cameraInfo
  | setConfig
  | captureImage
  | captureBinary
  deriving DecidableEq, Inhabited

namespace Route

def all : List Route := [.ping, .cameraInfo, .setConfig, .captureImage, .captureBinary]

def path : Route → String
  | .ping => "/ping"
  | .cameraInfo => "/api/get_camera_info"
  | .setConfig => "/api/set_camera_config"
  | .captureImage => "/api/capture_image"
  | .captureBinary => "/api/capture_binary"

/-- The route with a path. -/
def ofPath? (path : String) : Option Route :=
  all.find? (·.path = path)

/-- The methods of a route. What answers GET answers HEAD too. -/
def methods : Route → List String
  | .setConfig => ["POST"]
  | _ => ["GET", "HEAD"]

/-- The methods as the header Allow lists them. -/
def allowHeader (r : Route) : String × String :=
  ("allow", ",".intercalate r.methods)

theorem mem_all (r : Route) : r ∈ all := by
  cases r <;> decide

theorem ofPath?_path (r : Route) : ofPath? r.path = some r := by
  cases r <;> decide

end Route

end CameraFleet
