/-!
# Punycode

Labels of host names in ASCII, after RFC 3492. The ASCII characters come first; then every other
one, from the smallest code point to the largest, is written as the distance that a counter over
places and code points runs up to it. Distances are numbers to the base 36 whose digits end
themselves, with thresholds that follow the size of the distances before.
-/

namespace CameraFleet.Url.Punycode

/-- The digit for a value below 36. -/
def digit (n : Nat) : Char :=
  if n < 26 then Char.ofNat (n + 'a'.toNat) else Char.ofNat (n - 26 + '0'.toNat)

/-- The value of a digit. -/
def digit? (c : Char) : Option Nat :=
  if c.isLower then some (c.toNat - 'a'.toNat)
  else if c.isUpper then some (c.toNat - 'A'.toNat)
  else if c.isDigit then some (c.toNat - '0'.toNat + 26)
  else none

/-- The first code point that is not ASCII, where the counter begins. -/
def initialPoint : Nat := 0x80

def initialBias : Nat := 72

/-- The threshold of the digit whose place has the weight index `k`. -/
def threshold (k bias : Nat) : Nat :=
  if k ≤ bias then 1 else min (k - bias) 26

theorem threshold_bounds (k bias : Nat) : 1 ≤ threshold k bias ∧ threshold k bias ≤ 26 := by
  unfold threshold
  split <;> omega

/-- Divides a distance by 35 until it is small, and counts the divisions by 36. -/
def scaleDown (delta k : Nat) : Nat × Nat :=
  if 455 < delta then scaleDown (delta / 35) (k + 36) else (delta, k)
termination_by delta
decreasing_by omega

/-- The bias after a distance, `count` characters being known then. -/
def adapt (delta count : Nat) (isFirst : Bool) : Nat :=
  let delta := if isFirst then delta / 700 else delta / 2
  let (delta, k) := scaleDown (delta + delta / count) 0
  k + 36 * delta / (delta + 38)

/-- The digits of a distance, from place `k` on. -/
def distanceDigits (bias k distance : Nat) : List Char :=
  let t := threshold k bias
  if distance < t then [digit distance]
  else digit (t + (distance - t) % (36 - t)) ::
    distanceDigits bias (k + 36) ((distance - t) / (36 - t))
termination_by distance
decreasing_by
  have := threshold_bounds k bias
  calc (distance - threshold k bias) / (36 - threshold k bias)
      ≤ distance - threshold k bias := Nat.div_le_self _ _
    _ < distance := by omega

/-- What has been written, the distance since, the bias, and the number of known characters. -/
structure Progress where
  written : List Char
  delta : Nat
  bias : Nat
  known : Nat

/-- Goes over one character while the counter is at a code point. -/
def visit (basic point : Nat) (p : Progress) (c : Char) : Progress :=
  if c.toNat < point then { p with delta := p.delta + 1 }
  else if c.toNat = point then
    ⟨p.written ++ distanceDigits p.bias 36 p.delta, 0,
      adapt p.delta (p.known + 1) (p.known = basic), p.known + 1⟩
  else p

/-- Writes the characters with the given code points, which ascend. -/
def writePoints (label : List Char) (basic : Nat) : List Nat → Nat → Progress → List Char
  | [], _, p => p.written
  | point :: points, counter, p =>
    let p := { p with delta := p.delta + (point - counter) * (p.known + 1) }
    let p := label.foldl (visit basic point) p
    writePoints label basic points (point + 1) { p with delta := p.delta + 1 }

/-- A label in ASCII. -/
def encode (label : List Char) : List Char :=
  let basic := label.filter (·.toNat < initialPoint)
  let points := ((label.filter (initialPoint ≤ ·.toNat)).map Char.toNat).mergeSort.eraseDups
  let start := if basic = [] then [] else basic ++ ['-']
  writePoints label basic.length points initialPoint ⟨start, 0, initialBias, basic.length⟩

/-- The distance that digits write, and what follows it. -/
def readDistance (bias k weight distance : Nat) : List Char → Option (Nat × List Char)
  | [] => none
  | c :: cs =>
    match digit? c with
    | none => none
    | some d =>
      let t := threshold k bias
      let distance := distance + d * weight
      if d < t then some (distance, cs)
      else readDistance bias (k + 36) (weight * (36 - t)) distance cs

theorem length_of_readDistance {bias k weight distance n : Nat} {cs rest : List Char}
    (h : readDistance bias k weight distance cs = some (n, rest)) : rest.length < cs.length := by
  induction cs generalizing k weight distance with
  | nil => simp [readDistance] at h
  | cons c cs ih =>
    rw [readDistance] at h
    split at h
    · contradiction
    · dsimp only at h
      split at h
      · simp_all
      · have := ih h
        simp only [List.length_cons]
        omega

/-- The character with a code point, where there is one. -/
def char? (n : Nat) : Option Char :=
  if n.isValidChar then some (Char.ofNat n) else none

/-- Puts the characters that distances write in their places. -/
def readPoints (bias point place : Nat) (known : List Char) (cs : List Char) :
    Option (List Char) :=
  if cs = [] then some known
  else match _h : readDistance bias 36 1 0 cs with
    | none => none
    | some (distance, rest) =>
      let count := known.length + 1
      let place := place + distance
      match char? (point + place / count) with
      | none => none
      | some c =>
        readPoints (adapt distance count (known.all (·.toNat < initialPoint)))
          (point + place / count) (place % count + 1) (known.insertIdx (place % count) c) rest
termination_by cs.length
decreasing_by exact length_of_readDistance ‹_›

/-- The label that a text in ASCII stands for. The ASCII characters end before the last hyphen. -/
def decode? (cs : List Char) : Option (List Char) :=
  let tail := (cs.reverse.takeWhile (· ≠ '-')).reverse
  let basic := (cs.take (cs.length - tail.length)).dropLast
  readPoints initialBias initialPoint 0 basic tail

end CameraFleet.Url.Punycode
