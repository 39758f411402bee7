import CameraFleet.Datum.Record
import CameraFleet.Ident

/-!
# Quality ranges

The legal values for the encoding quality of an image format: between two bounds, and a whole
number of steps above the lower one.
-/

namespace CameraFleet

/-- The legal values for the quality of an image format. -/
structure QualityRange where
  min : UInt32
  max : UInt32
  step : Option UInt32
  default : Option UInt32
  deriving DecidableEq, Inhabited

namespace QualityRange

/-- The distance between neighbouring values, where there is one; a step of zero is none. -/
def stride? (r : QualityRange) : Option Nat :=
  match r.step with
  | some step => if step.toNat = 0 then none else some step.toNat
  | none => none

/-- Whether a value, not below the lower bound, is a whole number of steps above it. -/
def isReachable (r : QualityRange) (value : UInt32) : Bool :=
  match r.stride? with
  | some stride => (value.toNat - r.min.toNat) % stride = 0
  | none => true

/-- Whether a value is legal. -/
def contains (r : QualityRange) (value : UInt32) : Bool :=
  r.min ≤ value && value ≤ r.max && r.isReachable value

/-- The legal value nearest to `value`, the lower of two as near. Both bounds have to be in
order. -/
def nearest (r : QualityRange) (value : UInt32) : UInt32 :=
  let bounded := if value < r.min then r.min else if r.max < value then r.max else value
  match r.stride? with
  | none => bounded
  | some stride =>
    let offset := bounded.toNat - r.min.toNat
    let below := r.min.toNat + offset / stride * stride
    let above := below + stride
    UInt32.ofNat <|
      if above ≤ r.max.toNat ∧ above - bounded.toNat < bounded.toNat - below then above else below

/-- The legal value nearest to `value`; there is none if the bounds are out of order. -/
def clamp? (r : QualityRange) (value : UInt32) : Option UInt32 :=
  if r.min ≤ r.max then some (r.nearest value) else none

/-- What is wrong with a range. -/
inductive Flaw where
  | boundsOutOfOrder
  | zeroStep
  | defaultOutside
  | defaultUnreachable
  deriving DecidableEq

def Flaw.message : Flaw → String
  | .boundsOutOfOrder => "min is greater than max"
  | .zeroStep => "step must be positive"
  | .defaultOutside => "default is outside [min, max]"
  | .defaultUnreachable => "default is not reachable from min by step"

/-- The first thing that is wrong with a range. -/
def flaw? (r : QualityRange) : Option Flaw :=
  if r.max < r.min then some .boundsOutOfOrder
  else if r.step = some 0 then some .zeroStep
  else match r.default with
    | none => none
    | some value =>
      if value < r.min ∨ r.max < value then some .defaultOutside
      else if r.isReachable value then none
      else some .defaultUnreachable

/-- The names of the fields in a document. -/
def fieldNames : List String := ["min", "max", "step", "default"]

def ofDatum? (d : Datum) : Option QualityRange := do
  let fields ← d.record? fieldNames
  let min ← fields.required? "min" Datum.uint32?
  let max ← fields.required? "max" Datum.uint32?
  let step ← fields.optional? "step" Datum.uint32?
  let default ← fields.optional? "default" Datum.uint32?
  return ⟨min, max, step, default⟩

def toDatum (r : QualityRange) : Datum :=
  .ofFields <|
    [("min", .integer r.min.toNat), ("max", .integer r.max.toNat)] ++
      (r.step.map fun n => ("step", Datum.integer n.toNat)).toList ++
      (r.default.map fun n => ("default", Datum.integer n.toNat)).toList

end QualityRange

end CameraFleet
