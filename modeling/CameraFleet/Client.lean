import CameraFleet.Client.BaseUrl
import CameraFleet.Client.Disposition
import CameraFleet.Client.Error
import CameraFleet.Http.Form
import CameraFleet.Http.Link
import CameraFleet.Number.Literal
import CameraFleet.Patch
import CameraFleet.Route

/-!
# The client

Calls to a service over a link. Each makes a request and reads what comes back.
-/

namespace CameraFleet

/-- The raw data of a camera as downloaded. -/
structure Download where
  /-- The name that the server gives the file. -/
  filename : Option String
  frameRate : Option Binary64
  bytes : ByteArray

/-- A client of the service at a base URL. -/
structure Client where
  base : Client.BaseUrl
  deriving DecidableEq

namespace Client

/-- A client of the service at the URL that a text is. -/
def ofText (s : String) : Except Error Client :=
  match BaseUrl.ofText s with
  | .ok base => .ok ⟨base⟩
  | .error problem => .error (.invalidBaseUrl problem)

/-- The host and the port of the server, if it takes plain HTTP. -/
def server? (c : Client) : Option (Url.Host × Nat) :=
  match Url.ofText c.base.text with
  | .error _ => none
  | .ok url =>
    if url.scheme = "http" then
      url.authority.map fun a => (a.host, a.port.getD ((Url.defaultPort? url.scheme).getD 0))
    else none

/-! ## Requests -/

/-- The URL with a name and a value added to its query. -/
def addPair (u : Url) (name value : String) : Url :=
  let pair := Http.Form.encode name ++ "=" ++ Http.Form.encode value
  let query := match u.query with
    | none | some "" => pair
    | some query => query ++ "&" ++ pair
  { u with query := some query }

/-- The target of the request for a URL, which its server takes. -/
def target (u : Url) : String :=
  u.path ++ (u.query.map ("?" ++ ·)).getD ""

/-- The target of a route, for a camera where one is named. Only URLs of the schemes for HTTP can
be requested. -/
def target? (c : Client) (route : Route) (index : Option Ident) : Option String :=
  match Url.ofText (c.base.join route.path) with
  | .error _ => none
  | .ok url =>
    if url.scheme = "http" ∨ url.scheme = "https" then
      some <| target <| match index with
        | some index => addPair url "source" index.toText
        | none => url
    else none

/-- The request for the listing. -/
def listingRequest? (c : Client) : Option Http.Request :=
  (c.target? .cameraInfo none).map fun target => ⟨"GET", target, [], .empty⟩

/-- The request to change the configuration of a camera. -/
def setRequest? (c : Client) (index : Ident) (p : Patch) : Option Http.Request :=
  (c.target? .setConfig none).map fun target =>
    ⟨"POST", target, [("content-type", "application/json")],
      (Json.render (SetRequest.ofPatch index p).toDatum).toUTF8⟩

/-- The request for a capture of a camera. -/
def captureRequest? (c : Client) (route : Route) (index : Ident) : Option Http.Request :=
  (c.target? route (some index)).map fun target => ⟨"GET", target, [], .empty⟩

/-! ## Answers -/

/-- The value of a header, without the blanks around it, where it can be read. -/
def header? (r : Http.Response) (name : String) : Option String :=
  let isBlank (c : Char) : Bool := c = ' ' || c = '\t'
  ((Http.Headers.get? r.headers name).map fun value =>
    String.ofList (Text.stripBy isBlank value.toList)).filter Http.isReadableValue

def isSuccess (r : Http.Response) : Bool := 200 ≤ r.status && r.status < 300

def isRedirection (r : Http.Response) : Bool := 300 ≤ r.status && r.status < 400

/-- The document in the body of an answer. -/
def readDocument {α : Type} (ofDatum? : Datum → Option α) (r : Http.Response) : Except Error α :=
  if isSuccess r then
    match (Json.parseBytes? r.body).bind ofDatum? with
    | some a => .ok a
    | none => .error .undecodable
  else .error (.ofResponse r)

def readListing (r : Http.Response) : Except Error (List Camera) :=
  (readDocument Listing.ofDatum? r).map Listing.cameras

def readConfirmation (r : Http.Response) : Except Error Confirmation :=
  readDocument Confirmation.ofDatum? r

/-- The place that an answer refers to. -/
def readLocation (r : Http.Response) : Except Error String :=
  if isRedirection r then
    match header? r "location" with
    | some location => .ok location
    | none => .error (.missingHeader "Location")
  else .error (.ofResponse r)

def readDownload (r : Http.Response) : Except Error Download :=
  if isSuccess r then .ok {
    filename := (header? r "content-disposition").bind Disposition.filename?
    frameRate := (header? r "x-framerate").bind fun s => Binary64.ofText? (Text.trim s).toList
    bytes := r.body }
  else .error (.ofResponse r)

/-! ## Calls -/

variable {σ α : Type} (c : Client) (link : Link σ)

/-- Sends a request, where there is one, and reads the answer. One link stands for two ways of
sending: a request for the place of an image leaves the redirection to the caller, while all other
requests would follow up to ten of them. None is followed here, as the service redirects nothing
else. A request is sent however long its target is; on the way none has more than 65534 bytes. -/
def exchange (request : Option Http.Request) (read : Http.Response → Except Error α) (s : σ) :
    Except Error α × σ :=
  match request with
  | none => (.error .network, s)
  | some request =>
    match link s request with
    | (none, s) => (.error .network, s)
    | (some response, s) => (read response, s)

/-- The cameras of the fleet. -/
def fetchCameras (s : σ) : Except Error (List Camera) × σ :=
  exchange link c.listingRequest? readListing s

/-- Changes the configuration of a camera. -/
def setConfig (index : Ident) (p : Patch) (s : σ) : Except Error Confirmation × σ :=
  exchange link (c.setRequest? index p) readConfirmation s

/-- The place of a still image of a camera. -/
def imageLocation (index : Ident) (s : σ) : Except Error String × σ :=
  exchange link (c.captureRequest? .captureImage index) readLocation s

/-- The raw data of a camera. -/
def download (index : Ident) (s : σ) : Except Error Download × σ :=
  exchange link (c.captureRequest? .captureBinary index) readDownload s

end Client

end CameraFleet
