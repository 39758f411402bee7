import CameraFleet.Number.Word
import CameraFleet.QualityRange

/-!
# Quality ranges in words

The rules for quality ranges in the arithmetic of words, one operation after the other. Each
operation can fail: a difference below zero, a division by zero, a sum that is no word. A
condition that holds back an operation is a branch here.
-/

namespace CameraFleet.QualityRange.InWords

/-- The step, where there is one; a step of zero is none. -/
def step? (r : QualityRange) : Option UInt32 :=
  r.step.filter (0 < ·)

/-- Whether a value is a whole number of steps above the lower bound. -/
def isReachable? (r : QualityRange) (value : UInt32) : Option Bool :=
  match step? r with
  | some step => do
    let offset ← Word.sub? value r.min
    let rest ← Word.mod? offset step
    return rest = 0
  | none => some true

/-- Whether a value is legal. -/
def contains? (r : QualityRange) (value : UInt32) : Option Bool :=
  if r.min ≤ value then
    if value ≤ r.max then isReachable? r value else some false
  else some false

/-- The first thing that is wrong with a range. -/
def flaw? (r : QualityRange) : Option (Option Flaw) :=
  if r.max < r.min then some (some .boundsOutOfOrder)
  else if r.step = some 0 then some (some .zeroStep)
  else match r.default with
    | none => some none
    | some value =>
      if value < r.min ∨ r.max < value then some (some .defaultOutside)
      else do
        let reachable ← isReachable? r value
        return if reachable then none else some .defaultUnreachable

/-- The last value, in steps from the lower bound, that is not above `value`. -/
def lastStep? (r : QualityRange) (step value : UInt32) : Option UInt32 := do
  let offset ← Word.sub? value r.min
  let steps ← Word.div? offset step
  let height ← Word.mul? steps step
  Word.add? r.min height

/-- The legal value nearest to `value`, the lower of two as near. -/
def nearest? (r : QualityRange) (value : UInt32) : Option UInt32 := do
  let bounded ← Word.clamp? value r.min r.max
  match step? r with
  | none => return bounded
  | some step =>
    let below ← lastStep? r step bounded
    let above ← Word.add? below step
    if above ≤ r.max then
      let up ← Word.sub? above bounded
      let down ← Word.sub? bounded below
      return if up < down then above else below
    else return below

end CameraFleet.QualityRange.InWords
