import CameraFleet.Patch
import CameraFleet.Policy
import CameraFleet.Preview

/-!
# The registry

The cameras of a fleet, in the order of their identifiers, together with the template for their
previews and the policy for their qualities. The set of cameras is fixed when the registry is
seeded; afterwards patches change their configuration. What a camera shows of its active format
is brought up to date with every change.
-/

namespace CameraFleet

/-- What a registry is set up with besides its cameras. -/
structure Registry.Options where
  preview : Preview
  policy : Policy
  deriving Inhabited

/-- The cameras of a fleet, each under its identifier. -/
structure Registry where
  entries : List (Ident × Camera)
  options : Registry.Options
  deriving Inhabited

namespace Camera

/-- The camera with description, resolution and source as its active format implies them. A
format that implies no resolution leaves the one there is. -/
def refreshed (c : Camera) (preview : Preview) : Camera :=
  let c := match c.active? with
    | some format =>
      { c with
        description := some format.description
        resolution := format.impliedResolution?.getD c.resolution }
    | none => c
  { c with src := preview.render c.index c.resolution }

end Camera

namespace Registry

/-- Puts an entry in its place among ordered entries. -/
def insertSorted (index : Ident) (c : Camera) : List (Ident × Camera) → List (Ident × Camera)
  | [] => [(index, c)]
  | (i, d) :: rest =>
    if (Ident.compare index i).isLT then (index, c) :: (i, d) :: rest
    else (i, d) :: insertSorted index c rest

/-- Adds cameras to a registry, from the first to the last. -/
def seed (r : Registry) : List Camera → Except Failure Registry
  | [] => .ok r
  | c :: cs =>
    let c := c.refreshed r.options.preview
    match c.flaw? with
    | some flaw => .error (.invalidSeed flaw.toDefect)
    | none =>
      if (r.entries.lookup c.index).isSome then .error (.duplicateIndex c.index)
      else seed { r with entries := insertSorted c.index c r.entries } cs

/-- A registry with these cameras, which have to be sound and of different identifiers. -/
def ofCameras (cameras : List Camera) (options : Options) : Except Failure Registry :=
  seed ⟨[], options⟩ cameras

def size (r : Registry) : Nat := r.entries.length

def isEmpty (r : Registry) : Bool := r.entries.isEmpty

/-- The camera with an identifier. -/
def get? (r : Registry) (index : Ident) : Option Camera :=
  r.entries.lookup index

def contains (r : Registry) (index : Ident) : Bool :=
  (r.get? index).isSome

/-- All cameras, in the order of their identifiers. -/
def toList (r : Registry) : List Camera :=
  r.entries.map (·.2)

/-- Puts a camera in the place of the one with the identifier. -/
def replace (r : Registry) (index : Ident) (c : Camera) : Registry :=
  { r with entries := r.entries.map fun e => if e.1 = index then (e.1, c) else e }

/-- The quality that is stored when `quality` is asked for: itself where the active format has no
range or allows it, and otherwise what the policy makes of it. -/
def resolveQuality (policy : Policy) (c : Camera) (quality : UInt32) : Except Failure UInt32 :=
  match c.active?.bind ImageFormat.quality with
  | none => .ok quality
  | some range =>
    if range.contains quality then .ok quality
    else match policy with
      | .permissive => .ok quality
      | .strict => .error (.invalidQuality c.index quality range.min range.max)
      | .clamp => .ok (range.nearest quality)

/-- The camera with the format that a patch names made active. -/
def switchFormat (index : Ident) (c : Camera) : Option Ident → Except Failure Camera
  | none => .ok c
  | some id =>
    match c.format? id with
    | some format => .ok { c with activeFormat := format.id }
    | none => .error (.invalidFormat index id)

/-- The camera with the quality that a patch asks for. -/
def setQuality (policy : Policy) (c : Camera) : Option UInt32 → Except Failure Camera
  | none => .ok c
  | some quality =>
    match resolveQuality policy c quality with
    | .ok stored => .ok { c with quality := some stored }
    | .error e => .error e

/-- The camera that a patch makes of `c`: first the format, then the quality, then what both
imply. -/
def patched (options : Options) (index : Ident) (c : Camera) (p : Patch) :
    Except Failure Camera :=
  match switchFormat index c p.format with
  | .error e => .error e
  | .ok c =>
    match setQuality options.policy c p.quality with
    | .error e => .error e
    | .ok c => .ok (c.refreshed options.preview)

/-- Applies a patch to a camera. The answer is the camera as stored; a patch that is refused
changes nothing. -/
def apply (r : Registry) (index : Ident) (p : Patch) : Except Failure Camera × Registry :=
  match r.get? index with
  | none => (.error (.notFound index), r)
  | some c =>
    match patched r.options index c p with
    | .error e => (.error e, r)
    | .ok c => (.ok c, r.replace index c)

end Registry

end CameraFleet
