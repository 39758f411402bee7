import CameraFleet.Datum.Basic
import CameraFleet.Number.Shortest
import CameraFleet.Text.Hex

/-!
# Writing JSON

Fields in their order and nothing between the tokens, or one item a line with an indent of two.
In a text only the quote, the backslash and the control characters are escaped.
-/

namespace CameraFleet.Json

/-- A character inside a text. -/
def escape (c : Char) : List Char :=
  if c = '\x22' then ['\\', '\x22']
  else if c = '\\' then ['\\', '\\']
  else if c = '\x08' then ['\\', 'b']
  else if c = '\x0c' then ['\\', 'f']
  else if c = '\n' then ['\\', 'n']
  else if c = '\r' then ['\\', 'r']
  else if c = '\t' then ['\\', 't']
  else if c.toNat < 0x20 then
    ['\\', 'u', '0', '0', Text.hexDigit (c.toNat / 16), Text.hexDigit (c.toNat % 16)]
  else [c]

/-- A text between quotes. -/
def quoted (s : String) : List Char :=
  '\x22' :: (s.toList.flatMap escape ++ ['\x22'])

/-- The text of a value that holds no others. -/
def scalar : Datum → List Char
  | .bool true => ['t', 'r', 'u', 'e']
  | .bool false => ['f', 'a', 'l', 's', 'e']
  | .integer n => (Natural.intText n).toList
  | .real x => x.document
  | .text s => quoted s
  | _ => ['n', 'u', 'l', 'l']

mutual

/-- A value, without blanks. -/
def compact : Datum → List Char
  | .list items => '[' :: (compactItems items ++ [']'])
  | .table fields => '{' :: (compactFields fields ++ ['}'])
  | d => scalar d

/-- Items with commas between them. -/
def compactItems : List Datum → List Char
  | [] => []
  | [d] => compact d
  | d :: ds => compact d ++ ',' :: compactItems ds

/-- Fields with commas between them. -/
def compactFields : List (Option String × Datum) → List Char
  | [] => []
  | [(name, d)] => quoted (name.getD "") ++ ':' :: compact d
  | (name, d) :: fs => quoted (name.getD "") ++ ':' :: (compact d ++ ',' :: compactFields fs)

end

/-- A line break and the indent of a line. -/
def newLine (indent : Nat) : List Char :=
  '\n' :: List.replicate (2 * indent) ' '

mutual

/-- A value with one item a line. -/
def pretty (indent : Nat) : Datum → List Char
  | .list [] => ['[', ']']
  | .table [] => ['{', '}']
  | .list items => '[' :: (prettyItems (indent + 1) items ++ newLine indent ++ [']'])
  | .table fields => '{' :: (prettyFields (indent + 1) fields ++ newLine indent ++ ['}'])
  | d => scalar d

/-- Items, each on a line of its own. -/
def prettyItems (indent : Nat) : List Datum → List Char
  | [] => []
  | [d] => newLine indent ++ pretty indent d
  | d :: ds => newLine indent ++ pretty indent d ++ ',' :: prettyItems indent ds

/-- Fields, each on a line of its own. -/
def prettyFields (indent : Nat) : List (Option String × Datum) → List Char
  | [] => []
  | [(name, d)] => newLine indent ++ quoted (name.getD "") ++ ':' :: ' ' :: pretty indent d
  | (name, d) :: fs =>
    newLine indent ++ quoted (name.getD "") ++
      ':' :: ' ' :: (pretty indent d ++ ',' :: prettyFields indent fs)

end

/-- The text of a value, without blanks. -/
def render (d : Datum) : String :=
  String.ofList (compact d)

/-- The text of a value over several lines. -/
def renderPretty (d : Datum) : String :=
  String.ofList (pretty 0 d)

end CameraFleet.Json
