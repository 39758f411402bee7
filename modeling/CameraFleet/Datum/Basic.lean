import CameraFleet.Number.Binary64

/-!
# Documents as data

The values that a document holds, whichever notation it is written in. A document is read before
it is known which of its values will be looked at, and a value that nobody looks at may be beyond
what can be represented: a text that is not well-formed, a number that is too large. Such a value
is kept as unreadable, so that only its use is an error.
-/

namespace CameraFleet

/-- A value in a document. The name of a field is missing where its text is not well-formed. -/
inductive Datum where
  | null
  | bool (value : Bool)
  | integer (value : Int)
  | real (value : Binary64)
  | text (value : String)
  | list (items : List Datum)
  | table (fields : List (Option String × Datum))
  /-- A date or a time, which no setting is. -/
  | moment
  | unreadable
  deriving Inhabited

namespace Datum

/-- A table whose field names are all known. -/
def ofFields (fields : List (String × Datum)) : Datum :=
  .table (fields.map fun (name, value) => (some name, value))

/-- Whether every value inside can be read, with at most `room` lists and tables around each. -/
def isReadable : Nat → Datum → Bool
  | _, .unreadable => false
  | 0, .list _ => false
  | 0, .table _ => false
  | room + 1, .list items => items.all (isReadable room)
  | room + 1, .table fields =>
    fields.all fun (name, value) => name.isSome && isReadable room value
  | _, _ => true

/-- An integer below `limit`. -/
def word? (limit : Nat) : Datum → Option Nat
  | .integer n => if 0 ≤ n ∧ n.toNat < limit then some n.toNat else none
  | _ => none

def uint32? (d : Datum) : Option UInt32 :=
  (d.word? UInt32.size).map UInt32.ofNat

def uint16? (d : Datum) : Option UInt16 :=
  (d.word? UInt16.size).map UInt16.ofNat

/-- A number; an integer stands for the number nearest to it. -/
def number? : Datum → Option Binary64
  | .integer n => some (.ofInt n)
  | .real x => some x
  | _ => none

def text? : Datum → Option String
  | .text s => some s
  | _ => none

def bool? : Datum → Option Bool
  | .bool b => some b
  | _ => none

/-- The items of a list, each read by `read`. -/
def listOf? {α : Type} (read : Datum → Option α) : Datum → Option (List α)
  | .list items => items.mapM read
  | _ => none

end Datum

end CameraFleet
