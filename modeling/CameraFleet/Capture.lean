import CameraFleet.Registry

/-!
# Captures

A capture names its camera by the text of a source. A still image is only located; a raw capture
takes its bytes from a source of raw data, which may fail in its own way.
-/

namespace CameraFleet

/-- Where the raw data of a camera comes from. -/
abbrev RawSource := Camera → Except Failure ByteArray

/-- Raw data that tells which camera it is from. -/
def RawSource.synthetic : RawSource := fun c =>
  .ok ("Mock binary data for camera " ++ c.index.toText).toUTF8

/-- Where a still image of a camera can be fetched. -/
structure StillImage where
  index : Ident
  location : String
  deriving DecidableEq

/-- The raw data of a camera. -/
structure RawCapture where
  index : Ident
  bytes : ByteArray
  filename : String
  frameRate : Binary64

namespace Capture

/-- The name of the parameter that names the camera. -/
def sourceParameter : String := "source"

/-- The camera that a source names, which has to be there and not blank. -/
def parseSource (source : Option String) : Except Failure Ident :=
  match source with
  | none => .error (.missingParameter sourceParameter)
  | some s =>
    if Text.isBlankText s then .error (.missingParameter sourceParameter)
    else .ok (Ident.ofText (Text.trim s))

/-- The name of the file for a raw capture. -/
def filename (index : Ident) : String :=
  "camera_" ++ index.toText ++ "_raw.bin"

/-- The camera that a source names. -/
def find (r : Registry) (source : Option String) : Except Failure (Ident × Camera) :=
  match parseSource source with
  | .error e => .error e
  | .ok index =>
    match r.get? index with
    | none => .error (.notFound index)
    | some c => .ok (index, c)

/-- Locates a still image of the camera that a source names. -/
def still (r : Registry) (source : Option String) : Except Failure StillImage :=
  match find r source with
  | .error e => .error e
  | .ok (index, c) => .ok ⟨index, r.options.preview.render c.index c.resolution⟩

/-- Takes a raw capture of the camera that a source names. -/
def raw (r : Registry) (data : RawSource) (source : Option String) : Except Failure RawCapture :=
  match find r source with
  | .error e => .error e
  | .ok (index, c) =>
    match data c with
    | .error e => .error e
    | .ok bytes => .ok ⟨index, bytes, filename index, c.frameRate⟩

end Capture

end CameraFleet
