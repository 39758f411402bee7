import CameraFleet.Json.Token

/-!
# Reading JSON

A document is one value. The tokens are taken one by one; what has been opened and not yet closed
is kept on a stack, so a document may be nested as deeply as it is long.
-/

namespace CameraFleet.Json

/-- A list or a table that is still open, with what it holds so far in reverse; a table waits for
the value of the named field. -/
inductive Frame where
  | list (items : List Datum)
  | table (fields : List (Option String × Datum)) (name : Option String)

/-- What has been read, and so what may come next. -/
inductive Reader where
  /-- A value has to come. -/
  | value (outer : List Frame)
  /-- A list has been opened. -/
  | opened (outer : List Frame)
  /-- An item has ended. -/
  | item (items : List Datum) (outer : List Frame)
  /-- A table has been opened. -/
  | begun (outer : List Frame)
  /-- The name of a further field has to come. -/
  | key (fields : List (Option String × Datum)) (outer : List Frame)
  /-- A name has been read. -/
  | keyed (fields : List (Option String × Datum)) (name : Option String) (outer : List Frame)
  /-- A field has ended. -/
  | field (fields : List (Option String × Datum)) (outer : List Frame)
  /-- The document has ended. -/
  | done (value : Datum)

namespace Reader

/-- A value has ended, and belongs to the innermost of what is open. -/
def close (d : Datum) : List Frame → Reader
  | [] => .done d
  | .list items :: outer => .item (d :: items) outer
  | .table fields name :: outer => .field ((name, d) :: fields) outer

/-- The first token of a value. -/
def enter (outer : List Frame) : Token → Option Reader
  | .scalar d => some (close d outer)
  | .text v => some (close (v.elim .unreadable .text) outer)
  | .openList => some (.opened outer)
  | .openTable => some (.begun outer)
  | _ => none

/-- One more token. -/
def step : Reader → Token → Option Reader
  | .value outer, t => enter outer t
  | .opened outer, .closeList => some (close (.list []) outer)
  | .opened outer, t => enter (.list [] :: outer) t
  | .item items outer, .comma => some (.value (.list items :: outer))
  | .item items outer, .closeList => some (close (.list items.reverse) outer)
  | .begun outer, .closeTable => some (close (.table []) outer)
  | .begun outer, .text v => some (.keyed [] v outer)
  | .key fields outer, .text v => some (.keyed fields v outer)
  | .keyed fields v outer, .colon => some (.value (.table fields v :: outer))
  | .field fields outer, .comma => some (.key fields outer)
  | .field fields outer, .closeTable => some (close (.table fields.reverse) outer)
  | _, _ => none

/-- All tokens, one by one. -/
def run : Reader → List Token → Option Reader
  | r, [] => some r
  | r, t :: ts => (r.step t).bind (run · ts)

end Reader

/-- The value that tokens write. -/
def ofTokens? (ts : List Token) : Option Datum :=
  match Reader.run (.value []) ts with
  | some (.done d) => some d
  | _ => none

/-- The value that symbols write. -/
def ofSymbols? (s : List Utf8.Symbol) : Option Datum :=
  (Token.scan? s).bind ofTokens?

/-- The value of a document given as a text. -/
def parse? (s : String) : Option Datum :=
  ofSymbols? (Utf8.ofText s)

/-- The value of a document given as bytes. -/
def parseBytes? (bytes : ByteArray) : Option Datum :=
  ofSymbols? (Utf8.symbols bytes)

end CameraFleet.Json
