import CameraFleet.Datum.Record
import CameraFleet.Defect

/-!
# Patches

A change to the configuration of one camera. What a patch leaves out stays as it is. A request
carries a patch over the wire, where a quality may be any number, but only a whole number of 32
bits makes a patch.
-/

namespace CameraFleet

/-- A change to the configuration of a camera. With both parts present the quality is meant for
the new format. -/
structure Patch where
  format : Option Ident
  quality : Option UInt32
  deriving DecidableEq, Inhabited

namespace Patch

/-- The patch that changes nothing. -/
def empty : Patch := ⟨none, none⟩

def isEmpty (p : Patch) : Bool :=
  p.format.isNone && p.quality.isNone

def toDatum (p : Patch) : Datum :=
  .ofFields <|
    (p.format.map fun id => ("image_format", id.toDatum)).toList ++
      (p.quality.map fun n => ("quality", Datum.integer n.toNat)).toList

end Patch

/-- A quality as it arrives. -/
inductive WireQuality where
  | whole (value : UInt32)
  | other (value : Binary64)
  deriving DecidableEq, Inhabited

namespace WireQuality

def ofDatum? (d : Datum) : Option WireQuality :=
  match d.uint32? with
  | some n => some (.whole n)
  | none => d.number?.map .other

def toDatum : WireQuality → Datum
  | .whole n => .integer n.toNat
  | .other x => .real x

end WireQuality

/-- The request to change the configuration of a camera. -/
structure SetRequest where
  index : Ident
  format : Option Ident
  quality : Option WireQuality
  deriving DecidableEq, Inhabited

namespace SetRequest

/-- The request for a patch. -/
def ofPatch (index : Ident) (p : Patch) : SetRequest :=
  ⟨index, p.format, p.quality.map .whole⟩

/-- A quality that cannot be stored. -/
structure UnrepresentableQuality where
  value : String
  deriving DecidableEq

namespace UnrepresentableQuality

def toDefect (e : UnrepresentableQuality) : Defect := .unrepresentableQuality e.value

def message (e : UnrepresentableQuality) : String := e.toDefect.message

end UnrepresentableQuality

/-- The patch that a request asks for. -/
def patch (r : SetRequest) : Except UnrepresentableQuality Patch :=
  match r.quality with
  | none => .ok ⟨r.format, none⟩
  | some (.whole n) => .ok ⟨r.format, some n⟩
  | some (.other x) => .error ⟨x.plain⟩

/-- The names of the fields in a document. -/
def fieldNames : List String := ["index", "image_format", "jpeg_quality"]

def ofDatum? (d : Datum) : Option SetRequest := do
  let fields ← d.record? fieldNames
  let index ← fields.required? "index" Ident.ofDatum?
  let format ← fields.optional? "image_format" Ident.ofDatum?
  let quality ← fields.optional? "jpeg_quality" WireQuality.ofDatum?
  return ⟨index, format, quality⟩

def toDatum (r : SetRequest) : Datum :=
  .ofFields <|
    [("index", r.index.toDatum)] ++
      (r.format.map fun id => ("image_format", id.toDatum)).toList ++
      (r.quality.map fun q => ("jpeg_quality", q.toDatum)).toList

end SetRequest

end CameraFleet
