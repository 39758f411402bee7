import CameraFleet.Datum.Basic
import CameraFleet.Number.Natural

/-!
# Numbers in JSON

A number without point and exponent that fits 64 bits is an integer, and any other a double. Of a
longer number only the leading digits that fit 64 bits count, the others move the point; the
digits are then scaled by powers of ten, every step rounded. A number whose scaling overflows is
well-formed but has no value.
-/

namespace CameraFleet.Json

/-- The digits of a number so far: their value, and the power of ten it is scaled by. -/
structure Digits where
  value : Nat
  scale : Int
  deriving DecidableEq

/-- The value with one more digit, if that fits 64 bits. -/
@[irreducible]
def Digits.push? (value : Nat) (c : Char) : Option Nat :=
  let next := value * 10 + (c.toNat - '0'.toNat)
  if next < UInt64.size then some next else none

/-- The digits before the point: as many as fit, the others counted. -/
def Digits.whole (value : Nat) : List Char → Digits
  | [] => ⟨value, 0⟩
  | c :: cs =>
    match push? value c with
    | some next => whole next cs
    | none => ⟨value, (c :: cs).length⟩

/-- Adds the digits behind the point, as many as fit. -/
def Digits.withFraction (d : Digits) : List Char → Digits
  | [] => d
  | c :: cs =>
    match push? d.value c with
    | some next => withFraction ⟨next, d.scale - 1⟩ cs
    | none => d

/-- A power of ten as a double. -/
def tenTo (n : Nat) : Binary64 :=
  .ofDecimal false 1 n

/-- Divides by a power of ten, in steps of at most `10 ^ 308`. -/
def scaleDown (x : Binary64) (n : Nat) : Binary64 :=
  if n ≤ 308 then x.div (tenTo n)
  else if x.isZero then x
  else scaleDown (x.div (tenTo 308)) (n - 308)
termination_by n

/-- Multiplies by a power of ten, if the product is finite. -/
def scaleUp? (x : Binary64) (n : Nat) : Option Binary64 :=
  if n ≤ 308 then
    let y := x.mul (tenTo n)
    if y.isFinite then some y else none
  else if x.isZero then some x else none

/-- The double for digits and an exponent. -/
def real? (negative : Bool) (value : Nat) (e : Int) : Option Binary64 :=
  let x := Binary64.ofInt value
  let y := if 0 ≤ e then scaleUp? x e.toNat else some (scaleDown x (-e).toNat)
  y.map fun y => if negative then y.negate else y

/-- The greatest exponent that is computed with. -/
def maxExponent : Nat := 0x7FFFFFFF

/-- The double for digits with a written exponent. Beyond the greatest exponent only zero has a
value if the exponent is positive, and every value is zero if it is negative. -/
def scaled? (negative : Bool) (d : Digits) (down : Bool) (e : Nat) : Option Binary64 :=
  if maxExponent < e then
    if d.value ≠ 0 ∧ down = false then none else some (.zero negative)
  else real? negative d.value (if down then d.scale - e else d.scale + e)

/-- What a whole number stands for: an integer where all its digits fit, and it is not below the
least signed integer nor a negative zero. -/
def wholeNumber (negative : Bool) (d : Digits) : Datum :=
  if d.scale = 0 ∧ negative = false then .integer d.value
  else if d.scale = 0 ∧ 0 < d.value ∧ d.value ≤ 0x8000000000000000 then .integer (-d.value)
  else (real? negative d.value d.scale).elim .unreadable .real

/-- The exponent part of a number: whether it divides, and its size. -/
def exponent? (cs : List Char) : Option (Bool × Nat) :=
  match cs with
  | '-' :: rest => (Natural.ofDigits? rest).map (true, ·)
  | '+' :: rest => (Natural.ofDigits? rest).map (false, ·)
  | _ => (Natural.ofDigits? cs).map (false, ·)

/-- A number without its sign. -/
def unsigned? (negative : Bool) (cs : List Char) : Option Datum := do
  let before := cs.takeWhile Char.isDigit
  let rest := cs.dropWhile Char.isDigit
  if before = [] ∨ (before.head? = some '0' ∧ before ≠ ['0']) then none
  let whole := Digits.whole 0 before
  let (fraction, rest) ← match rest with
    | '.' :: rest =>
      let fraction := rest.takeWhile Char.isDigit
      if fraction = [] then none else some (fraction, rest.dropWhile Char.isDigit)
    | _ => some ([], rest)
  let digits := whole.withFraction fraction
  match rest with
  | [] =>
    if fraction = [] then some (wholeNumber negative whole)
    else some ((real? negative digits.value digits.scale).elim .unreadable .real)
  | c :: rest =>
    if c = 'e' ∨ c = 'E' then do
      let (down, e) ← exponent? rest
      some ((scaled? negative digits down e).elim .unreadable .real)
    else none

/-- The number that a text is, if it is written as JSON has it. -/
def number? : List Char → Option Datum
  | '-' :: cs => unsigned? true cs
  | cs => unsigned? false cs

end CameraFleet.Json
