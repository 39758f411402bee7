import CameraFleet.Datum.Basic

/-!
# Records

A record is written as a table of its fields or as a list of their values in order. A table may
hold fields that the record does not have; they are passed over, but no field of the record may
come twice. A list may end early, if the record can do without the rest.
-/

namespace CameraFleet.Datum

/-- The fields found for a record. -/
abbrev Record := List (String × Datum)

/-- The fields of a table that a record with these names has, each found once. -/
def known? (names : List String) : List (Option String × Datum) → Option Record
  | [] => some []
  | (none, _) :: _ => none
  | (some name, value) :: rest =>
    match known? names rest with
    | none => none
    | some found =>
      if name ∉ names then some found
      else if (found.lookup name).isSome then none
      else some ((name, value) :: found)

/-- The fields of a record with these names. -/
def record? (names : List String) : Datum → Option Record
  | .table fields => known? names fields
  | .list items => if items.length ≤ names.length then some (names.zip items) else none
  | .moment => some []
  | _ => none

/-- As `record?`, but a list has to hold every field. -/
def fullRecord? (names : List String) : Datum → Option Record
  | .list items => if items.length = names.length then some (names.zip items) else none
  | d => d.record? names

namespace Record

/-- A field that has to be there. -/
def required? {α : Type} (fields : Record) (name : String) (read : Datum → Option α) : Option α :=
  (fields.lookup name).bind read

/-- A field that may be missing or null. -/
def optional? {α : Type} (fields : Record) (name : String) (read : Datum → Option α) :
    Option (Option α) :=
  match fields.lookup name with
  | none | some .null => some none
  | some d => (read d).map some

/-- A field with a value of its own where it is missing. -/
def withDefault? {α : Type} (fields : Record) (name : String) (value : α)
    (read : Datum → Option α) : Option α :=
  match fields.lookup name with
  | none => some value
  | some d => read d

end Record

end CameraFleet.Datum
