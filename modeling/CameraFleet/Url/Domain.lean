import CameraFleet.Text.Split
import CameraFleet.Url.Punycode

/-!
# Names of hosts

A name is a sequence of labels with dots between them. Names are the same whatever the case of
their letters, and a label with characters outside ASCII is written with the prefix xn-- in
Punycode. Some characters are never part of a name.

This is the processing of international names as far as it goes character by character. Composed
and compatible forms of the same text are not brought to one spelling, capitals are told from small
letters in Latin, Greek and Cyrillic only, and neither the context of joiners nor the direction of
writing is looked at.
-/

namespace CameraFleet.Url.Domain

/-- The ASCII characters that no name contains. -/
def isForbidden (c : Char) : Bool :=
  c ≤ ' ' || c = '\x7f' || c ∈ ['%', '#', '/', ':', '<', '>', '?', '@', '[', '\\', ']', '^', '|']

/-- Characters that join or modify others and do not count in a name. -/
def isIgnored (n : Nat) : Bool :=
  n = 0xAD || n = 0x34F || (0x180B ≤ n && n ≤ 0x180D) || n = 0x200B || n = 0x2060 || n = 0x2064 ||
    (0xFE00 ≤ n && n ≤ 0xFE0F) || n = 0xFEFF

/-- Characters outside ASCII that no name contains: controls, spaces, joiners, and those without
a use. -/
def isDisallowed (n : Nat) : Bool :=
  (0x80 ≤ n && n ≤ 0xA0) || n = 0x1680 || (0x2000 ≤ n && n ≤ 0x200F) ||
    (0x2028 ≤ n && n ≤ 0x202F) || n = 0x205F || (0x2061 ≤ n && n ≤ 0x206F) || n = 0x3000 ||
    (0xE000 ≤ n && n ≤ 0xF8FF) || (0xFFF9 ≤ n && n ≤ 0xFFFF) || 0xE0000 ≤ n

/-- The distance from a capital letter to its small one: letters of Latin, Greek and Cyrillic. -/
def capitalOffset (n : Nat) : Nat :=
  if (0xC0 ≤ n ∧ n ≤ 0xDE ∧ n ≠ 0xD7) ∨ (0x391 ≤ n ∧ n ≤ 0x3AB) ∨ (0x410 ≤ n ∧ n ≤ 0x42F) then 32
  else if 0x400 ≤ n ∧ n ≤ 0x40F then 80
  else if (0x100 ≤ n ∧ n ≤ 0x137 ∨ 0x14A ≤ n ∧ n ≤ 0x177) ∧ n % 2 = 0 then 1
  else if (0x139 ≤ n ∧ n ≤ 0x148 ∨ 0x179 ≤ n ∧ n ≤ 0x17E) ∧ n % 2 = 1 then 1
  else 0

/-- A character as names have it, or none where a name cannot contain it. No character is
decomposed or composed with its neighbours, and a joiner is refused in every context. -/
def fold? (c : Char) : Option (List Char) :=
  let n := c.toNat
  if n < 0x80 then some [c.toLower]
  else if isIgnored n then some []
  else if isDisallowed n then none
  else if n = 0x3002 ∨ n = 0xFF0E ∨ n = 0xFF61 then some ['.']
  else if 0xFF01 ≤ n ∧ n ≤ 0xFF5E then some [(Char.ofNat (n - 0xFEE0)).toLower]
  else some [Char.ofNat (n + capitalOffset n)]

def punycodePrefix : List Char := ['x', 'n', '-', '-']

/-- Whether a label with the prefix stands for another one. -/
def isPunycode (rest : List Char) : Bool :=
  match Punycode.decode? rest with
  | some label =>
    label.any (0x80 ≤ ·.toNat) && label.all (fun c => fold? c = some [c]) &&
      Punycode.encode label = rest
  | none => false

/-- A label in ASCII. -/
def label? (cs : List Char) : Option (List Char) :=
  if cs.all (·.toNat < 0x80) then
    if punycodePrefix.isPrefixOf cs ∧ !isPunycode (cs.drop 4) then none else some cs
  else some (punycodePrefix ++ Punycode.encode cs)

def joinLabels (labels : List (List Char)) : List Char :=
  List.intercalate ['.'] labels

/-- A name in ASCII, where the text can be one. -/
def toAscii? (cs : List Char) : Option (List Char) := do
  let folded ← cs.mapM fold?
  let labels ← (Text.splitOn '.' folded.flatten).mapM label?
  let name := joinLabels labels
  if name.any isForbidden then none else some name

end CameraFleet.Url.Domain
