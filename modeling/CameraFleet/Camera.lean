import CameraFleet.Defect
import CameraFleet.QualityRange
import CameraFleet.Resolution

/-!
# Cameras

A camera has a list of image formats, one of which is active. Its description, its resolution and
its source are views of the active format; a camera is sound if its formats are told apart by
their identifiers, the active one is among them, its description agrees, and all quality ranges
are sound.
-/

namespace CameraFleet

/-- A capture mode of a camera. -/
structure ImageFormat where
  id : Ident
  description : String
  /-- Missing for a format without adjustable quality. -/
  quality : Option QualityRange
  /-- Missing where the description tells it. -/
  resolution : Option Resolution
  deriving DecidableEq, Inhabited

/-- A capture device. -/
structure Camera where
  index : Ident
  name : Option String
  /-- Where a preview of the camera can be fetched. -/
  src : String
  frameRate : Binary64
  activeFormat : Ident
  description : Option String
  quality : Option UInt32
  resolution : Resolution
  formats : List ImageFormat
  deriving DecidableEq, Inhabited

namespace ImageFormat

/-- The resolution of a format: the one it gives, or else the one its description names. -/
def impliedResolution? (f : ImageFormat) : Option Resolution :=
  match f.resolution with
  | some r => some r
  | none => Resolution.ofLabel? f.description

/-- The names of the fields in a document. -/
def fieldNames : List String := ["id", "description", "quality", "resolution"]

def ofDatum? (d : Datum) : Option ImageFormat := do
  let fields ← d.record? fieldNames
  let id ← fields.required? "id" Ident.ofDatum?
  let description ← fields.required? "description" Datum.text?
  let quality ← fields.optional? "quality" QualityRange.ofDatum?
  let resolution ← fields.optional? "resolution" Resolution.ofDatum?
  return ⟨id, description, quality, resolution⟩

def toDatum (f : ImageFormat) : Datum :=
  .ofFields <|
    [("id", f.id.toDatum), ("description", .text f.description)] ++
      (f.quality.map fun r => ("quality", r.toDatum)).toList ++
      (f.resolution.map fun r => ("resolution", r.toDatum)).toList

end ImageFormat

namespace Camera

/-- The format with an identifier. -/
def format? (c : Camera) (id : Ident) : Option ImageFormat :=
  c.formats.find? (·.id = id)

/-- The active format. -/
def active? (c : Camera) : Option ImageFormat :=
  c.format? c.activeFormat

/-- Whether the quality is legal for the active format, where there is a quality and a range to
judge it by. -/
def qualityInRange? (c : Camera) : Option Bool := do
  let quality ← c.quality
  let format ← c.active?
  let range ← format.quality
  return range.contains quality

/-- What a check of a camera can find. -/
inductive Flaw where
  | unknownActiveFormat (camera format : Ident)
  | duplicateFormat (camera format : Ident)
  | staleDescription (camera : Ident)
  | invalidQualityRange (format : Ident) (flaw : QualityRange.Flaw)
  deriving DecidableEq

namespace Flaw

/-- The finding as a defect, which gives the reason in words. -/
def toDefect : Flaw → Defect
  | unknownActiveFormat camera format => .unknownActiveFormat camera format
  | duplicateFormat camera format => .duplicateFormat camera format
  | staleDescription camera => .staleDescription camera
  | invalidQualityRange format flaw => .invalidQualityRange format flaw.message

def message (flaw : Flaw) : String := flaw.toDefect.message

end Flaw

/-- The first thing that is wrong with the formats, of which those with the identifiers `seen`
came before. -/
def formatsFlaw? (index : Ident) (seen : List Ident) : List ImageFormat → Option Flaw
  | [] => none
  | f :: rest =>
    if f.id ∈ seen then some (.duplicateFormat index f.id)
    else match f.quality.bind QualityRange.flaw? with
      | some flaw => some (.invalidQualityRange f.id flaw)
      | none => formatsFlaw? index (f.id :: seen) rest

/-- The first thing that is wrong with a camera. -/
def flaw? (c : Camera) : Option Flaw :=
  match formatsFlaw? c.index [] c.formats with
  | some flaw => some flaw
  | none =>
    match c.active? with
    | none => some (.unknownActiveFormat c.index c.activeFormat)
    | some active =>
      match c.description with
      | some description =>
        if description = active.description then none else some (.staleDescription c.index)
      | none => none

/-- The names of the fields in a document. -/
def fieldNames : List String :=
  ["index", "name", "src", "currentFrameRate", "currentImageFormat",
    "currentImageFormatDescription", "currentQuality", "currentResolution", "imageFormats"]

def ofDatum? (d : Datum) : Option Camera := do
  let fields ← d.record? fieldNames
  let index ← fields.required? "index" Ident.ofDatum?
  let name ← fields.optional? "name" Datum.text?
  let src ← fields.withDefault? "src" "" Datum.text?
  let frameRate ← fields.required? "currentFrameRate" Datum.number?
  let activeFormat ← fields.required? "currentImageFormat" Ident.ofDatum?
  let description ← fields.optional? "currentImageFormatDescription" Datum.text?
  let quality ← fields.optional? "currentQuality" Datum.uint32?
  let resolution ← fields.required? "currentResolution" Resolution.ofDatum?
  let formats ← fields.required? "imageFormats" (Datum.listOf? ImageFormat.ofDatum?)
  return ⟨index, name, src, frameRate, activeFormat, description, quality, resolution, formats⟩

def toDatum (c : Camera) : Datum :=
  .ofFields <|
    [("index", c.index.toDatum)] ++
      (c.name.map fun s => ("name", Datum.text s)).toList ++
      [("src", .text c.src), ("currentFrameRate", .real c.frameRate),
        ("currentImageFormat", c.activeFormat.toDatum)] ++
      (c.description.map fun s => ("currentImageFormatDescription", Datum.text s)).toList ++
      (c.quality.map fun n => ("currentQuality", Datum.integer n.toNat)).toList ++
      [("currentResolution", c.resolution.toDatum),
        ("imageFormats", .list (c.formats.map ImageFormat.toDatum))]

end Camera

end CameraFleet
