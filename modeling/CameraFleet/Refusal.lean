import CameraFleet.Failure
import CameraFleet.Http.Message
import CameraFleet.Wire

/-!
# Refusals

What a client is told of a request that cannot be fulfilled: a status and a message, as a
document or as a text. Not every detail of a failure is passed on.
-/

namespace CameraFleet

/-- A status with a message. -/
structure Refusal where
  status : Nat
  message : String
  deriving DecidableEq

namespace Refusal

def badRequest (message : String) : Refusal := ⟨400, message⟩

def notFound : Refusal := ⟨404, "Camera not found"⟩

def malformedBody : Refusal := badRequest "Invalid JSON in request body"

def invalidFormat : Refusal := badRequest "Invalid image format"

def invalidQuality : Refusal := badRequest "Invalid quality"

/-- What is told of a failure. -/
def ofFailure : Failure → Refusal
  | .missingParameter name => badRequest ("Missing " ++ name ++ " parameter")
  | .notFound _ => notFound
  | .invalidFormat .. => invalidFormat
  | .invalidQuality .. => invalidQuality
  | .capture _ => ⟨500, "Capture failed"⟩
  | e => ⟨500, e.message⟩

/-- The refusal as a document. -/
def document (r : Refusal) : Http.Response :=
  .json r.status (Complaint.toDatum ⟨r.message⟩)

/-- The refusal as a text. -/
def plain (r : Refusal) : Http.Response :=
  .text r.status r.message

end Refusal

end CameraFleet
