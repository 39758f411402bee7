import CameraFleet.Capture
import CameraFleet.Http.Cors
import CameraFleet.Http.Form
import CameraFleet.Http.Link
import CameraFleet.Json.Reader
import CameraFleet.Refusal
import CameraFleet.Route

/-!
# The service

A registry behind HTTP. Every request is answered, and only one that changes the configuration of
a camera and succeeds leaves another registry behind.
-/

namespace CameraFleet

/-- A registry with the settings it was set up by and the source of raw data. -/
structure Service where
  settings : Settings
  registry : Registry
  raw : RawSource

namespace Service

/-- The policy for other sites that a service with these settings is built with. Its routes have to
have paths of their own, and the policy has to be built. -/
def build? (s : Settings) : Option Http.Cors.Policy :=
  if (Route.all.map Route.path).Nodup then Http.Cors.build? s else none

/-- The service that the settings describe. -/
def ofSettings (s : Settings) (raw : RawSource) : Except Failure Service :=
  match s.registry with
  | .ok registry => .ok ⟨s, registry, raw⟩
  | .error e => .error e

/-- The version that the service reports. -/
def version : String := "0.1.0"

/-- The answer that shows that the service is up, with the time it is given at. -/
def ping (time : String) : Http.Response :=
  .json 200 (.ofFields [
    ("message", .text "Ferrocam server is running"),
    ("status", .text "ok"),
    ("timestamp", .text time),
    ("version", .text version)])

/-- The listing of all cameras. -/
def cameraInfo (r : Registry) : Http.Response :=
  .json 200 (Listing.toDatum ⟨r.toList⟩)

/-- The number of bytes that a body may have. -/
def bodyLimit : Nat := 2097152

/-- What is told of a change that succeeded. -/
def updated : Confirmation :=
  ⟨true, "Camera configuration updated successfully"⟩

/-- Changes the configuration of a camera as a body asks. -/
def setConfig (r : Registry) (body : ByteArray) : Http.Response × Registry :=
  if bodyLimit < body.size then
    (.text 413 "Failed to buffer the request body: length limit exceeded", r)
  else match (Json.parseBytes? body).bind SetRequest.ofDatum? with
  | none => (Refusal.malformedBody.document, r)
  | some request =>
    if !r.contains request.index then (Refusal.notFound.document, r)
    else match request.patch with
    | .error _ => (Refusal.invalidQuality.document, r)
    | .ok patch =>
      match r.apply request.index patch with
      | (.ok _, r) => (.json 200 updated.toDatum, r)
      | (.error e, r) => ((Refusal.ofFailure e).document, r)

/-- The source that a query names, or none. A query may name at most one. -/
def sourceOf (query : Option String) : Except String (Option String) :=
  match (Http.Form.pairs (query.getD "")).filter (·.1 = Capture.sourceParameter) with
  | [] => .ok none
  | [(_, source)] => .ok (some source)
  | _ => .error ("Failed to deserialize query string: duplicate field \x60" ++
      Capture.sourceParameter ++ "\x60")

/-- Sends a client to the still image of a camera. -/
def captureImage (r : Registry) (source : Option String) : Http.Response :=
  match Capture.still r source with
  | .error e => (Refusal.ofFailure e).plain
  | .ok still => .withHeaders 302 302 [("location", still.location)] .empty

/-- The name of a file as the header Content-Disposition has it. -/
def disposition (filename : String) : String :=
  "attachment; filename=\"" ++ filename ++ "\""

/-- The raw capture of a camera as a download. -/
def captureBinary (r : Registry) (raw : RawSource) (source : Option String) : Http.Response :=
  match Capture.raw r raw source with
  | .error e => (Refusal.ofFailure e).plain
  | .ok capture => .withHeaders 200 500
    [("content-type", "application/octet-stream"),
     ("content-disposition", disposition capture.filename),
     ("cache-control", "no-store"),
     ("x-framerate", capture.frameRate.plain)] capture.bytes

/-- A capture for the source that a query names. -/
def withSource (query : Option String) (answer : Option String → Http.Response) : Http.Response :=
  match sourceOf query with
  | .ok source => answer source
  | .error message => .text 400 message

/-- Answers a request on a route by one of the route's methods. -/
def handle (s : Service) (time : String) (route : Route) (query : Option String)
    (body : ByteArray) : Http.Response × Registry :=
  match route with
  | .ping => (ping time, s.registry)
  | .cameraInfo => (cameraInfo s.registry, s.registry)
  | .setConfig => setConfig s.registry body
  | .captureImage => (withSource query (captureImage s.registry), s.registry)
  | .captureBinary => (withSource query (captureBinary s.registry s.raw), s.registry)

/-- Answers a request that is no question about what is allowed. -/
def dispatch (s : Service) (time : String) (request : Http.Request) :
    Http.Response × Registry :=
  let target := Http.Target.ofText request.target
  match Route.ofPath? target.path with
  | none => (.empty 404, s.registry)
  | some route =>
    if request.method ∈ route.methods then s.handle time route target.query request.body
    else ({ Http.Response.empty 405 with headers := [route.allowHeader] }, s.registry)

/-- The headers that the answer to a question about what is allowed takes from the route. -/
def routeHeaders (target : String) : Http.Headers :=
  ((Route.ofPath? (Http.Target.ofText target).path).map Route.allowHeader).toList

/-- Answers a request at a time. -/
def respond (s : Service) (time : String) (request : Http.Request) : Http.Response × Service :=
  let policy := Http.Cors.policyOf s.settings
  let origin := Http.Headers.get? request.headers "origin"
  if request.method = "OPTIONS" then
    let headers := routeHeaders request.target ++ Http.Cors.preflightHeaders policy origin
    ({ Http.Response.empty 200 with headers }, s)
  else
    let (response, registry) := s.dispatch time request
    let headers := response.headers ++ Http.Cors.answerHeaders policy origin
    let body := if request.method = "HEAD" then .empty else response.body
    ({ response with headers, body }, { s with registry })

/-- Answers requests one after the other. -/
def respondAll (s : Service) (time : String) : List Http.Request → List Http.Response × Service
  | [] => ([], s)
  | request :: rest =>
    let (response, s) := s.respond time request
    let (responses, s) := s.respondAll time rest
    (response :: responses, s)

/-- The link to a service in this process. -/
def link (time : String) : Link Service := fun s request =>
  let (response, s) := s.respond time request
  (some response, s)

end Service

end CameraFleet
