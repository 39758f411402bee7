import CameraFleet.Http.Message
import CameraFleet.Json.Reader
import CameraFleet.Url.Basic
import CameraFleet.Wire

/-!
# Errors of a client

Why a call to a service fails: it does not get through, the answer is not understood, or the
service refuses. The reason for a refusal is in a document or is the text of the body.
-/

namespace CameraFleet.Client

inductive Error where
  /-- The base of the service is no URL. -/
  | invalidBaseUrl (problem : Url.Problem)
  /-- No answer comes back. -/
  | network
  /-- The body of an answer is not the document that it should be. -/
  | undecodable
  | notFound (message : String)
  | badRequest (message : String)
  /-- The service answers with any other status. -/
  | unexpected (status : Nat) (message : String)
  | missingHeader (name : String)
  deriving DecidableEq

namespace Error

def message : Error → String
  | .invalidBaseUrl problem => "invalid base URL: " ++ problem.message
  | .network => "network error"
  | .undecodable => "failed to decode response"
  | .notFound message => "camera not found: " ++ message
  | .badRequest message => "request rejected: " ++ message
  | .unexpected status message => "unexpected status " ++ Natural.toText status ++ ": " ++ message
  | .missingHeader name => "response is missing the " ++ name ++ " header"

/-- The reason that the body of a refusal gives. The body is read as UTF-8, whatever charset a
header names, and a byte order mark at its beginning stays. -/
def reason (body : ByteArray) : String :=
  let text := Utf8.decodeLossy body
  match (Json.parse? text).bind Complaint.ofDatum? with
  | some complaint => complaint.error
  | none => text

/-- The error that a refusal is. -/
def ofResponse (r : Http.Response) : Error :=
  if r.status = 404 then .notFound (reason r.body)
  else if r.status = 400 then .badRequest (reason r.body)
  else .unexpected r.status (reason r.body)

end Error

end CameraFleet.Client
