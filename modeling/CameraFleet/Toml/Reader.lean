import CameraFleet.Toml.Scalar
import CameraFleet.Toml.Table

/-!
# Reading TOML

A document is a sequence of lines: headers, pairs of a key and a value, comments. Lists and tables
written as values may go over several lines and may end in a comma; they are nested at most
eighty deep.
-/

namespace CameraFleet.Toml

/-- The deepest nesting of lists and tables written as values. -/
def maxNesting : Nat := 80

/-- What follows a comment, from its line end on. -/
def afterComment? : List Char → Option (List Char)
  | [] => some []
  | '\n' :: rest => some ('\n' :: rest)
  | '\r' :: '\n' :: rest => some ('\n' :: rest)
  | c :: rest => if isControl c then none else afterComment? rest

/-- What follows blanks, line ends and comments. -/
def skipLines? (fuel : Nat) (cs : List Char) : Option (List Char) :=
  match fuel, cs.dropWhile isSpace with
  | fuel + 1, '\n' :: rest => skipLines? fuel rest
  | fuel + 1, '\r' :: '\n' :: rest => skipLines? fuel rest
  | fuel + 1, '#' :: rest => (afterComment? rest).bind (skipLines? fuel)
  | _, rest => some rest

/-- What follows the end of a line, a comment in front of it included. -/
def endOfLine? (cs : List Char) : Option (List Char) :=
  match cs.dropWhile isSpace with
  | [] => some []
  | '\n' :: rest => some rest
  | '\r' :: '\n' :: rest => some rest
  | '#' :: rest => (afterComment? rest).map (List.drop 1)
  | _ => none

def isKeyChar (c : Char) : Bool :=
  c.isAlphanum || c = '_' || c = '-'

/-- A key without dots: a text on one line, or a run of letters, digits, underscores, hyphens. -/
def simpleKey? (cs : List Char) : Option (String × List Char) :=
  if threeQuotes '\x22' cs ∨ threeQuotes '\'' cs then none
  else match text? cs with
    | some (key, rest) => some (String.ofList key, rest)
    | none =>
      let key := cs.takeWhile isKeyChar
      if key.isEmpty then none else some (String.ofList key, cs.dropWhile isKeyChar)

/-- A key with its path, and what follows it and the blanks behind it. -/
def key? (fuel : Nat) (path : List String) (cs : List Char) :
    Option (List String × String × List Char) :=
  match fuel with
  | 0 => none
  | fuel + 1 =>
    match simpleKey? (cs.dropWhile isSpace) with
    | none => none
    | some (key, rest) =>
      match rest.dropWhile isSpace with
      | '.' :: rest => key? fuel (path ++ [key]) rest
      | rest => some (path, key, rest)

mutual

/-- A value at the beginning, and what follows it. -/
def value? (fuel room : Nat) (cs : List Char) : Option (Datum × List Char) :=
  match fuel with
  | 0 => none
  | fuel + 1 =>
    match cs with
    | '[' :: rest => if room = 0 then none else items? fuel (room - 1) [] rest
    | '\x7b' :: rest => if room = 0 then none else pairs? fuel (room - 1) [] rest
    | '\x22' :: _ | '\'' :: _ =>
      (text? cs).map fun (s, rest) => (.text (String.ofList s), rest)
    | _ => leadingScalar? cs

/-- The rest of a list, with the items so far in reverse. -/
def items? (fuel room : Nat) (found : List Datum) (cs : List Char) : Option (Datum × List Char) :=
  match fuel with
  | 0 => none
  | fuel + 1 =>
    match skipLines? cs.length cs with
    | none => none
    | some (']' :: rest) => some (.list found.reverse, rest)
    | some rest =>
      match value? fuel room rest with
      | none => none
      | some (d, rest) =>
        match skipLines? rest.length rest with
        | some (',' :: rest) => items? fuel room (d :: found) rest
        | some (']' :: rest) => some (.list (d :: found).reverse, rest)
        | _ => none

/-- The rest of a table, with the fields so far. -/
def pairs? (fuel room : Nat) (found : Fields) (cs : List Char) : Option (Datum × List Char) :=
  match fuel with
  | 0 => none
  | fuel + 1 =>
    match skipLines? cs.length cs with
    | none => none
    | some ('\x7d' :: rest) => some (.table (fieldsToData found), rest)
    | some rest =>
      match key? (rest.length + 1) [] rest with
      | some (path, key, '=' :: rest) =>
        match value? fuel room (rest.dropWhile isSpace) with
        | none => none
        | some (d, rest) =>
          match addValue path key d .header found, skipLines? rest.length rest with
          | some found, some (',' :: rest) => pairs? fuel room found rest
          | some found, some ('\x7d' :: rest) => some (.table (fieldsToData found), rest)
          | _, _ => none
      | _ => none

end

/-- A header behind its opening brackets, and what follows it. -/
def header? (isDouble : Bool) (cs : List Char) : Option (Header × List Char) :=
  match key? (cs.length + 1) [] cs with
  | some (path, key, ']' :: rest) =>
    if isDouble then
      match rest with
      | ']' :: rest => some (⟨path, key, true⟩, rest)
      | _ => none
    else some (⟨path, key, false⟩, rest)
  | _ => none

/-- Reads a document line by line. -/
def lines? (fuel : Nat) (doc : Document) (cs : List Char) : Option Document :=
  match fuel with
  | 0 => none
  | fuel + 1 =>
    match cs.dropWhile isSpace with
    | [] => some doc
    | '[' :: '[' :: rest =>
      match header? true rest with
      | none => none
      | some (h, rest) =>
        match doc.open? h, endOfLine? rest with
        | some doc, some rest => lines? fuel doc rest
        | _, _ => none
    | '[' :: rest =>
      match header? false rest with
      | none => none
      | some (h, rest) =>
        match doc.open? h, endOfLine? rest with
        | some doc, some rest => lines? fuel doc rest
        | _, _ => none
    | c :: rest =>
      if c = '\n' ∨ c = '\r' ∨ c = '#' then
        match endOfLine? (c :: rest) with
        | some rest => lines? fuel doc rest
        | none => none
      else
        match key? (cs.length + 1) [] (c :: rest) with
        | some (path, key, '=' :: rest) =>
          match value? (rest.length + 1) maxNesting (rest.dropWhile isSpace) with
          | none => none
          | some (d, rest) =>
            match doc.add? path key d, endOfLine? rest with
            | some doc, some rest => lines? fuel doc rest
            | _, _ => none
        | _ => none

/-- The value of a document, a byte order mark at its beginning left out. -/
def parse? (s : String) : Option Datum := do
  let cs := match s.toList with
    | '\uFEFF' :: cs => cs
    | cs => cs
  let doc ← lines? (cs.length + 1) .empty cs
  let fields ← doc.finish?
  return .table (fieldsToData fields)

end CameraFleet.Toml
