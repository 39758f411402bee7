import CameraFleet.Datum.Basic

/-!
# Tables of TOML

A document defines its tables piece by piece: by headers, by dotted keys, and on the way to
another table. How a table came about decides what may still be added to it: a table is opened by
a header once, dotted keys add only to tables that dotted keys made, and what is written as a
value is complete.
-/

namespace CameraFleet.Toml

/-- How a table came about. -/
inductive Origin where
  /-- Opened by a header of its own. -/
  | header
  /-- On the way to the table of a header. -/
  | implied
  /-- On the way to the value of a dotted key. -/
  | dotted
  deriving DecidableEq

/-- A value that may still grow. -/
inductive Node where
  | value (d : Datum)
  | table (origin : Origin) (fields : List (String × Node))
  /-- Tables opened by the same double header, the last one first. -/
  | tables (last : List (String × Node)) (before : List Node)
  deriving Inhabited

abbrev Fields := List (String × Node)

/-- The fields with one of them replaced. -/
def Fields.replace (fields : Fields) (key : String) (n : Node) : Fields :=
  fields.map fun (k, old) => if k = key then (k, n) else (k, old)

/-- Changes the table that a path leads to, with the origin and the fields it has. Tables missing
on the way are made with the origin `made`. Of tables under one double header the last one is
meant. -/
def descend (made : Origin) (change : Origin → Fields → Option Fields) :
    List String → Origin → Fields → Option Fields
  | [], origin, fields => change origin fields
  | key :: path, _, fields =>
    match fields.lookup key with
    | none => (descend made change path made []).map fun sub =>
        fields ++ [(key, .table made sub)]
    | some (.table origin sub) =>
      if made = .dotted ∧ origin = .header then none
      else (descend made change path origin sub).map fun sub =>
        Fields.replace fields key (.table origin sub)
    | some (.tables last before) => (descend made change path .header last).map fun last =>
        Fields.replace fields key (.tables last before)
    | some (.value _) => none

/-- Adds a value under a key in the table that the dotted path before the key leads to. -/
def addValue (path : List String) (key : String) (d : Datum) (origin : Origin) (fields : Fields) :
    Option Fields :=
  descend .dotted (fun origin fields =>
    if (origin = .dotted) = (path = []) ∨ (fields.lookup key).isSome then none
    else some (fields ++ [(key, .value d)])) path origin fields

/-- The header that the current table belongs to. -/
structure Header where
  path : List String
  key : String
  isDouble : Bool

/-- A document while it is read: everything before the current table, and the current table. -/
structure Document where
  root : Fields
  header : Option Header
  current : Fields

namespace Document

def empty : Document := ⟨[], none, []⟩

/-- Everything so far, the current table in its place. -/
def finish? (doc : Document) : Option Fields :=
  match doc.header with
  | none => some doc.current
  | some h =>
    descend .implied (fun _ fields =>
      if h.isDouble then
        match fields.lookup h.key with
        | none => some (fields ++ [(h.key, .tables doc.current [])])
        | some (.tables last before) =>
          some (Fields.replace fields h.key
            (.tables doc.current (.table .header last :: before)))
        | some _ => none
      else some (fields ++ [(h.key, .table .header doc.current)])) h.path .header doc.root

/-- Begins the table of a header. A table that is only implied so far is taken up again. -/
def open? (doc : Document) (h : Header) : Option Document := do
  let root ← doc.finish?
  if h.isDouble then return ⟨root, some h, []⟩
  else
    let root ← descend .implied (fun _ fields => some fields) h.path .header root
    let current ← find? h.path root
    let root ← descend .implied (fun _ fields =>
      some (fields.filter fun (k, _) => k ≠ h.key)) h.path .header root
    return ⟨root, some h, current⟩
where
  /-- The fields that the table of the header already has. -/
  find? : List String → Fields → Option Fields
    | [], fields =>
      match fields.lookup h.key with
      | none => some []
      | some (.table .implied sub) => some sub
      | some _ => none
    | key :: path, fields =>
      match fields.lookup key with
      | some (.table _ sub) => find? path sub
      | some (.tables last _) => find? path last
      | _ => none

/-- Adds a value to the current table. -/
def add? (doc : Document) (path : List String) (key : String) (d : Datum) : Option Document :=
  (addValue path key d .header doc.current).map fun fields => { doc with current := fields }

end Document

mutual

/-- The value of a node. -/
def Node.toDatum : Node → Datum
  | .value d => d
  | .table _ fields => .table (fieldsToData fields)
  | .tables last before => .list (nodesToData before [.table (fieldsToData last)])

/-- The values of fields. -/
def fieldsToData : List (String × Node) → List (Option String × Datum)
  | [] => []
  | (k, n) :: rest => (some k, n.toDatum) :: fieldsToData rest

/-- The values of nodes, in reverse and in front of others. -/
def nodesToData : List Node → List Datum → List Datum
  | [], data => data
  | n :: rest, data => nodesToData rest (n.toDatum :: data)

end

end CameraFleet.Toml
