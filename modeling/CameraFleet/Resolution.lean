import CameraFleet.Datum.Record
import CameraFleet.Text.Blank
import CameraFleet.Text.Digit

/-!
# Resolutions

The size of an image in pixels, and the size that a label of a capture mode names. In a label a
size is written as width, a cross and height; of several sizes the last one counts.
-/

namespace CameraFleet

/-- The size of an image in pixels. -/
structure Resolution where
  width : UInt32
  height : UInt32
  deriving DecidableEq, Inhabited

namespace Resolution

/-- The characters that stand between width and height. -/
def isCross (c : Char) : Bool :=
  c = 'x' || c = 'X' || c = '×'

/-- A size as it stands in a label: the digits of width and height, in any script. -/
structure Written where
  width : List Char
  height : List Char
  deriving DecidableEq

/-- Up to five decimal digits at the beginning, as many as there are, and what follows them. -/
def leadingDigits (cs : List Char) : List Char × List Char :=
  let ds := (cs.take 5).takeWhile Text.isDecimalDigit
  (ds, cs.drop ds.length)

/-- A size at the very beginning, and what follows it. Its digits do not go on in front of the
cross, but they may go on behind it. -/
def leadingSize? (cs : List Char) : Option (Written × List Char) :=
  let (width, rest) := leadingDigits cs
  match rest.dropWhile Text.isBlank with
  | cross :: rest =>
    let (height, rest) := leadingDigits (rest.dropWhile Text.isBlank)
    if width ≠ [] ∧ isCross cross ∧ height ≠ [] then some (⟨width, height⟩, rest) else none
  | [] => none

theorem length_of_leadingDigits (cs : List Char) :
    (leadingDigits cs).1.length + (leadingDigits cs).2.length = cs.length := by
  have h : ((cs.take 5).takeWhile Text.isDecimalDigit).length ≤ cs.length :=
    ((List.takeWhile_sublist _).trans (List.take_sublist 5 cs)).length_le
  simp only [leadingDigits, List.length_drop]
  omega

theorem length_of_leadingSize? {cs rest : List Char} {w : Written}
    (h : leadingSize? cs = some (w, rest)) : rest.length < cs.length := by
  simp only [leadingSize?] at h
  split at h
  · rename_i cross tail hd
    split at h
    · simp only [Option.some.injEq, Prod.mk.injEq] at h
      obtain ⟨-, rfl⟩ := h
      have h1 := length_of_leadingDigits cs
      have h2 := length_of_leadingDigits (tail.dropWhile Text.isBlank)
      have h3 := (List.dropWhile_sublist (l := tail) Text.isBlank).length_le
      have h4 := (List.dropWhile_sublist (l := (leadingDigits cs).2) Text.isBlank).length_le
      rw [hd, List.length_cons] at h4
      omega
    · simp at h
  · simp at h

/-- The sizes in a label, found from left to right and without overlap. -/
def sizes (cs : List Char) : List Written :=
  match cs with
  | [] => []
  | c :: cs =>
    match _h : leadingSize? (c :: cs) with
    | some (w, rest) => w :: sizes rest
    | none => sizes cs
termination_by cs.length
decreasing_by
  · exact length_of_leadingSize? _h
  · simp

/-- The resolution that a written size denotes: only the digits of ASCII have a value, and
neither side is zero. -/
def ofWritten? (w : Written) : Option Resolution :=
  if w.width.all Char.isDigit ∧ w.height.all Char.isDigit then
    let width := Nat.ofDigitChars 10 w.width 0
    let height := Nat.ofDigitChars 10 w.height 0
    if width = 0 ∨ height = 0 then none else some ⟨UInt32.ofNat width, UInt32.ofNat height⟩
  else none

/-- The resolution that a label names, by the last size in it. -/
def ofLabel? (label : String) : Option Resolution :=
  (sizes label.toList).getLast?.bind ofWritten?

/-- The names of the fields in a document. -/
def fieldNames : List String := ["width", "height"]

def ofDatum? (d : Datum) : Option Resolution := do
  let fields ← d.record? fieldNames
  let width ← fields.required? "width" Datum.uint32?
  let height ← fields.required? "height" Datum.uint32?
  return ⟨width, height⟩

def toDatum (r : Resolution) : Datum :=
  .ofFields [("width", .integer r.width.toNat), ("height", .integer r.height.toNat)]

end Resolution

end CameraFleet
