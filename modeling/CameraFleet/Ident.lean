import CameraFleet.Datum.Basic
import CameraFleet.Number.Natural
import CameraFleet.Number.Shortest

/-!
# Identifiers

Cameras and image formats are identified by a number or by a name. The canonical decimal text of
a number always stands for the number, so an identifier reads the same from a query, from a
document and from its own text. Numbers come before names.
-/

namespace CameraFleet

/-- The identifier of a camera or of an image format. -/
inductive Ident where
  | number (value : UInt64)
  | name (text : String)
  deriving DecidableEq, Inhabited

namespace Ident

/-- The identifier that a text names: a number if it is the canonical text of one that fits 64
bits, and else the text itself. -/
def ofText (s : String) : Ident :=
  if Natural.isCanonical s.toList then
    let n := Nat.ofDigitChars 10 s.toList 0
    if n < UInt64.size then .number (UInt64.ofNat n) else .name s
  else .name s

/-- The text of an identifier. -/
def toText : Ident → String
  | .number n => Natural.toText n.toNat
  | .name s => s

/-- The bytes of a text, by which names are ordered. -/
def textBytes (s : String) : List UInt8 :=
  s.toByteArray.data.toList

/-- Numbers by value, before all names; names by their bytes. -/
protected def compare : Ident → Ident → Ordering
  | .number a, .number b => compare a b
  | .number _, .name _ => .lt
  | .name _, .number _ => .gt
  | .name a, .name b => compare (textBytes a) (textBytes b)

instance : Ord Ident := ⟨Ident.compare⟩

/-- The largest whole number up to which every whole number is a double. -/
def maxExactWhole : Nat := 0x20000000000000

/-- The identifier that a number in a document is. A double that is a whole number in the exact
range counts as that number, and every other one as its text. -/
def ofReal (x : Binary64) : Ident :=
  match x.toNat? with
  | some n => if n ≤ maxExactWhole then .number (UInt64.ofNat n) else .name x.plain
  | none => .name x.plain

/-- The identifier that a value in a document is. -/
def ofDatum? : Datum → Option Ident
  | .integer n =>
    if 0 ≤ n then
      if n < UInt64.size then some (.number (UInt64.ofNat n.toNat)) else none
    else some (.name (Natural.intText n))
  | .real x => some (ofReal x)
  | .text s => some (ofText s)
  | _ => none

/-- The identifier as a value of a document. -/
def toDatum : Ident → Datum
  | .number n => .integer n.toNat
  | .name s => .text s

end Ident

end CameraFleet
