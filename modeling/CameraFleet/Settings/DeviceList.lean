import CameraFleet.Json.Reader
import CameraFleet.Wire

/-!
# Device lists

The cameras of a fleet in a document of their own: a list of cameras, or a table as the service
lists them. The whole document has to be readable, whether or not all of it is used.
-/

namespace CameraFleet.Settings.DeviceList

/-- The deepest nesting of a document that is read as a whole. -/
def maxNesting : Nat := 127

/-- The cameras of either form. -/
def ofDatum? (d : Datum) : Option (List Camera) :=
  if d.isReadable maxNesting then
    match d with
    | .list _ => Datum.listOf? Camera.ofDatum? d
    | _ => (Listing.ofDatum? d).map Listing.cameras
  else none

/-- The cameras that a text gives. -/
def parse? (s : String) : Option (List Camera) :=
  (Json.parse? s).bind ofDatum?

end CameraFleet.Settings.DeviceList
