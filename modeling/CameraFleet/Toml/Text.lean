import CameraFleet.Json.Token

/-!
# Texts in TOML

A text stands between quotes: with escapes between double quotes, and exactly as it is between
single ones. Three quotes of either kind begin a text over several lines, which may hold one or
two such quotes together.
-/

namespace CameraFleet.Toml

/-- A text that has been read, and what follows it. -/
abbrev Scanned := Option (List Char × List Char)

/-- A control character that no text or comment may hold; the tab is allowed. -/
def isControl (c : Char) : Bool :=
  (c.toNat < 0x20 && c ≠ '\t') || c.toNat = 0x7F

def isSpace (c : Char) : Bool :=
  c = ' ' || c = '\t'

/-- The value of a run of hexadecimal digits. -/
def hexValue? (cs : List Char) : Option Nat :=
  cs.foldlM (fun n c => (Text.hexDigit? c).map (n * 16 + ·)) 0

/-- The character with a code point, where there is one. -/
def charOf? (n : Nat) : Option Char :=
  if n.isValidChar then some (Char.ofNat n) else none

/-- The number of digits behind the letter of a numeric escape. -/
def escapeLength? : Char → Option Nat
  | 'x' => some 2
  | 'u' => some 4
  | 'U' => some 8
  | _ => none

/-- The character that a letter behind a backslash stands for. -/
def escape? : Char → Option Char
  | 'b' => some '\x08'
  | 't' => some '\t'
  | 'n' => some '\n'
  | 'f' => some '\x0c'
  | 'r' => some '\r'
  | 'e' => some '\x1b'
  | '\x22' => some '\x22'
  | '\\' => some '\\'
  | _ => none

/-- The character of an escape, given what follows the backslash. -/
def unescape? (cs : List Char) : Option (Char × List Char) :=
  match cs with
  | [] => none
  | c :: rest =>
    match escape? c with
    | some d => some (d, rest)
    | none => do
      let n ← escapeLength? c
      let digits := rest.take n
      if digits.length = n then
        let d ← (hexValue? digits).bind charOf?
        return (d, rest.drop n)
      else none

/-- What follows blanks and line ends. -/
def skipFold : List Char → List Char
  | '\r' :: '\n' :: rest => skipFold rest
  | c :: rest => if isSpace c ∨ c = '\n' then skipFold rest else c :: rest
  | [] => []

/-- What follows a backslash at the end of a line: all blanks and line ends up to the next text.
There have to be blanks alone between the backslash and the end of its line. -/
def foldedLine? (cs : List Char) : Option (List Char) :=
  match cs.dropWhile isSpace with
  | '\n' :: rest => some (skipFold rest)
  | '\r' :: '\n' :: rest => some (skipFold rest)
  | _ => none

/-- The rest of a text on one line between double quotes. -/
def basic (fuel : Nat) (found : List Char) (cs : List Char) : Scanned :=
  match fuel, cs with
  | 0, _ | _, [] => none
  | _ + 1, '\x22' :: rest => some (found.reverse, rest)
  | fuel + 1, '\\' :: rest =>
    match unescape? rest with
    | some (c, rest) => basic fuel (c :: found) rest
    | none => none
  | fuel + 1, c :: rest => if isControl c then none else basic fuel (c :: found) rest

/-- The rest of a text on one line between single quotes. -/
def literal (found : List Char) : List Char → Scanned
  | [] => none
  | '\'' :: rest => some (found.reverse, rest)
  | c :: rest => if isControl c then none else literal (c :: found) rest

/-- What a run of at least three quotes means inside a text over several lines: the last three end
the text, and up to two before them belong to it. -/
def closing (quote : Char) (found cs : List Char) : Scanned :=
  let n := ((cs.take 5).takeWhile (· = quote)).length
  some ((List.replicate (n - 3) quote ++ found).reverse, cs.drop n)

/-- Whether three quotes come next. -/
def threeQuotes (quote : Char) (cs : List Char) : Bool :=
  cs.take 3 = [quote, quote, quote]

/-- The rest of a text over several lines between double quotes. -/
def basicLines (fuel : Nat) (found : List Char) (cs : List Char) : Scanned :=
  match fuel, cs with
  | 0, _ | _, [] => none
  | fuel + 1, c :: rest =>
    if threeQuotes '\x22' (c :: rest) then closing '\x22' found (c :: rest)
    else if c = '\\' then
      match foldedLine? rest with
      | some rest => basicLines fuel found rest
      | none =>
        match unescape? rest with
        | some (d, rest) => basicLines fuel (d :: found) rest
        | none => none
    else if c = '\r' then
      if rest.head? = some '\n' then basicLines fuel (c :: found) rest else none
    else if c ≠ '\n' ∧ isControl c then none
    else basicLines fuel (c :: found) rest

/-- The rest of a text over several lines between single quotes. -/
def literalLines (found : List Char) : List Char → Scanned
  | [] => none
  | c :: rest =>
    if threeQuotes '\'' (c :: rest) then closing '\'' found (c :: rest)
    else if c = '\r' then
      if rest.head? = some '\n' then literalLines (c :: found) rest else none
    else if c ≠ '\n' ∧ isControl c then none
    else literalLines (c :: found) rest

/-- A line end right behind the opening quotes does not belong to the text. -/
def dropFirstLineEnd : List Char → List Char
  | '\n' :: rest => rest
  | '\r' :: '\n' :: rest => rest
  | cs => cs

/-- A text of any kind. -/
def text? (cs : List Char) : Scanned :=
  if threeQuotes '\x22' cs then
    let rest := dropFirstLineEnd (cs.drop 3)
    basicLines (rest.length + 1) [] rest
  else if threeQuotes '\'' cs then literalLines [] (dropFirstLineEnd (cs.drop 3))
  else match cs with
    | '\x22' :: rest => basic (rest.length + 1) [] rest
    | '\'' :: rest => literal [] rest
    | _ => none

end CameraFleet.Toml
