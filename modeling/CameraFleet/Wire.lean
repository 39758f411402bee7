import CameraFleet.Camera

/-!
# Documents of the service

What the service answers in documents: the listing of the cameras, the word that a change
succeeded, and the reason why a request is refused. Each is written and read.
-/

namespace CameraFleet

/-- The cameras of a fleet. -/
structure Listing where
  cameras : List Camera
  deriving DecidableEq

/-- The word that a change succeeded. -/
structure Confirmation where
  success : Bool
  message : String
  deriving DecidableEq

/-- The reason why a request is refused. -/
structure Complaint where
  error : String
  deriving DecidableEq

namespace Listing

def fieldNames : List String := ["cameras"]

def toDatum (l : Listing) : Datum :=
  .ofFields [("cameras", .list (l.cameras.map Camera.toDatum))]

def ofDatum? (d : Datum) : Option Listing := do
  let fields ← d.record? fieldNames
  let cameras ← fields.required? "cameras" (Datum.listOf? Camera.ofDatum?)
  return ⟨cameras⟩

end Listing

namespace Confirmation

def fieldNames : List String := ["success", "message"]

def toDatum (c : Confirmation) : Datum :=
  .ofFields [("success", .bool c.success), ("message", .text c.message)]

def ofDatum? (d : Datum) : Option Confirmation := do
  let fields ← d.record? fieldNames
  let success ← fields.required? "success" Datum.bool?
  let message ← fields.required? "message" Datum.text?
  return ⟨success, message⟩

end Confirmation

namespace Complaint

def fieldNames : List String := ["error"]

def toDatum (c : Complaint) : Datum :=
  .ofFields [("error", .text c.error)]

def ofDatum? (d : Datum) : Option Complaint := do
  let fields ← d.record? fieldNames
  let error ← fields.required? "error" Datum.text?
  return ⟨error⟩

end Complaint

end CameraFleet
