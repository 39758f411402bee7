import CameraFleet.Http.Message
import CameraFleet.Settings.Basic

/-!
# Requests from other sites

The headers that tell a browser which sites may use the service, and how. Outside the
development mode an origin is allowed when it is listed; a list with a wildcard, or without an
origin that could be sent, allows every one.
-/

namespace CameraFleet.Http.Cors

/-- The origins that are allowed. -/
inductive Origins where
  | any
  | listed (origins : List String)
  deriving DecidableEq

/-- What other sites may do. -/
structure Policy where
  origins : Origins
  methods : String
  headers : String
  /-- The response headers that may be read. -/
  exposed : Option String
  deriving DecidableEq

/-- The policy of the development mode, which allows everything. -/
def permissive : Policy := ⟨.any, "*", "*", some "*"⟩

/-- The allowed origins of the settings. -/
def originsOf (c : Settings.Cors) : Origins :=
  let usable := c.origins.filter isHeaderValue
  if c.hasWildcard ∨ usable = [] then .any else .listed usable

/-- The policy that the settings list. -/
def ofSettings (c : Settings.Cors) : Policy where
  origins := originsOf c
  methods := ",".intercalate (c.methods.filter isMethod)
  headers := ",".intercalate ((c.headers.filter isHeaderName).map Text.lower)
  exposed := none

/-- The policy of a service. -/
def policyOf (s : Settings) : Policy :=
  if s.devMode then permissive else ofSettings s.cors

/-! ## Building the policy

The policy is put together once, when the service is set up. An allow-list with the wildcard in it
is refused there: nothing is built. -/

/-- The allow-list of these origins, if it can be built. -/
def Origins.ofList? (origins : List String) : Option Origins :=
  if "*" ∈ origins then none else some (.listed origins)

/-- The allowed origins of the settings, if they can be built. -/
def buildOrigins? (c : Settings.Cors) : Option Origins :=
  if c.hasWildcard then some .any
  else
    let usable := c.origins.filter isHeaderValue
    if usable = [] then some .any else Origins.ofList? usable

/-- The policy of a service, if it can be built. -/
def build? (s : Settings) : Option Policy :=
  if s.devMode then some permissive
  else (buildOrigins? s.cors).map fun origins => { ofSettings s.cors with origins }

/-! ## Headers -/

/-- The allowed origin that a request with this origin is told. -/
def Origins.answer? (o : Origins) (origin : Option String) : Option String :=
  match o with
  | .any => some "*"
  | .listed origins => origin.filter (· ∈ origins)

/-- What the responses depend on, for caches to know. -/
def varyHeader : String × String :=
  ("vary", "origin, access-control-request-method, access-control-request-headers")

/-- A header that is left out when its value is empty. -/
def listHeader (name value : String) : Headers :=
  if value.isEmpty then [] else [(name, value)]

/-- The headers of every response. -/
def originHeaders (p : Policy) (origin : Option String) : Headers :=
  varyHeader :: ((p.origins.answer? origin).map ("access-control-allow-origin", ·)).toList

/-- The headers of the answer to a question about what is allowed. -/
def preflightHeaders (p : Policy) (origin : Option String) : Headers :=
  originHeaders p origin ++ listHeader "access-control-allow-methods" p.methods ++
    listHeader "access-control-allow-headers" p.headers

/-- The headers of any other answer. -/
def answerHeaders (p : Policy) (origin : Option String) : Headers :=
  originHeaders p origin ++ (p.exposed.map ("access-control-expose-headers", ·)).toList

end CameraFleet.Http.Cors
