import CameraFleet.Number.Natural
import CameraFleet.Text.Hex

/-!
# Network addresses

Addresses of version 4 and 6 with a port. An address of version 4 is four numbers without leading
zeros. One of version 6 stands between brackets, with at most one gap for zeros; it may end like
one of version 4, and may have the number of a zone.
-/

namespace CameraFleet.Network

/-- An address of version 4, by its four bytes. -/
structure Ipv4 where
  bytes : List Nat
  deriving DecidableEq

/-- An address of version 6, by its eight groups. -/
structure Ipv6 where
  groups : List Nat
  deriving DecidableEq

/-- An address with a port. -/
inductive SocketAddress where
  | v4 (address : Ipv4) (port : Nat)
  | v6 (address : Ipv6) (zone : Nat) (port : Nat)
  deriving DecidableEq

/-- What follows a character that has to come next. -/
def after? (c : Char) : List Char → Option (List Char)
  | d :: rest => if c = d then some rest else none
  | [] => none

/-- A number of at most three digits below 256, without leading zeros. -/
def byte? (cs : List Char) : Option (Nat × List Char) := do
  let digits := cs.takeWhile Char.isDigit
  if digits.length ≤ 3 ∧ Natural.isCanonical digits then
    let n := Nat.ofDigitChars 10 digits 0
    if n < 256 then some (n, cs.dropWhile Char.isDigit) else none
  else none

/-- An address of version 4. -/
def ipv4? (cs : List Char) : Option (Ipv4 × List Char) := do
  let (a, cs) ← byte? cs
  let (b, cs) ← byte? (← after? '.' cs)
  let (c, cs) ← byte? (← after? '.' cs)
  let (d, cs) ← byte? (← after? '.' cs)
  return (⟨[a, b, c, d]⟩, cs)

/-- A group of at most four hexadecimal digits. -/
def group? (cs : List Char) : Option (Nat × List Char) :=
  let digits := cs.takeWhile Text.isHexDigit
  if digits ≠ [] ∧ digits.length ≤ 4 then
    some (Text.ofHexDigits digits, cs.dropWhile Text.isHexDigit)
  else none

/-- Up to `count` groups with colons between them, `found` being those so far. An address of
version 4 stands for two groups and ends them. -/
def groups (count : Nat) (found : List Nat) (cs : List Char) : List Nat × Bool × List Char :=
  match count with
  | 0 => (found, false, cs)
  | count + 1 =>
    match if found.isEmpty then some cs else after? ':' cs with
    | none => (found, false, cs)
    | some rest =>
      match if count = 0 then none else ipv4? rest with
      | some (⟨[a, b, c, d]⟩, rest) => (found ++ [a * 256 + b, c * 256 + d], true, rest)
      | _ =>
        match group? rest with
        | some (g, rest) => groups count (found ++ [g]) rest
        | none => (found, false, cs)

/-- An address of version 6. -/
def ipv6? (cs : List Char) : Option (Ipv6 × List Char) :=
  let (head, hasIpv4, rest) := groups 8 [] cs
  if head.length = 8 then some (⟨head⟩, rest)
  else if hasIpv4 then none
  else match rest with
    | ':' :: ':' :: rest =>
      let (tail, _, rest) := groups (7 - head.length) [] rest
      some (⟨head ++ List.replicate (8 - head.length - tail.length) 0 ++ tail⟩, rest)
    | _ => none

/-- The whole text as a number below `limit`. -/
def numberBelow? (limit : Nat) (cs : List Char) : Option Nat :=
  (Natural.ofDigits? cs).filter (· < limit)

/-- The zone of an address, zero if there is none, and what follows it. -/
def zone? (cs : List Char) : Option (Nat × List Char) :=
  match cs with
  | '%' :: rest =>
    (numberBelow? UInt32.size (rest.takeWhile Char.isDigit)).map (·, rest.dropWhile Char.isDigit)
  | _ => some (0, cs)

/-- The address that a text is. -/
def SocketAddress.ofText? (s : String) : Option SocketAddress :=
  match s.toList with
  | '[' :: cs => do
    let (address, cs) ← ipv6? cs
    let (zone, cs) ← zone? cs
    let port ← numberBelow? UInt16.size (← after? ':' (← after? ']' cs))
    return .v6 address zone port
  | cs => do
    let (address, cs) ← ipv4? cs
    let port ← numberBelow? UInt16.size (← after? ':' cs)
    return .v4 address port

/-! ## Texts -/

def joinWith (sep : Char) : List (List Char) → List Char
  | [] => []
  | [part] => part
  | part :: rest => part ++ sep :: joinWith sep rest

def hexText (n : Nat) : List Char :=
  Nat.toDigits 16 n

def Ipv4.text (a : Ipv4) : List Char :=
  joinWith '.' (a.bytes.map Natural.digits)

/-- The number of zeros at the beginning. -/
def zeroRun (groups : List Nat) : Nat :=
  (groups.takeWhile (· = 0)).length

/-- The place and length of the longest run of zeros, the first of equal ones. -/
def longestZeros : Nat → List Nat → Nat × Nat
  | _, [] => (0, 0)
  | place, g :: rest =>
    let here := zeroRun (g :: rest)
    let later := longestZeros (place + 1) rest
    if later.2 ≤ here then (place, here) else later

/-- The groups in hexadecimal, the longest run of at least two zeros left out. -/
def Ipv6.compressed (a : Ipv6) : List Char :=
  let (place, length) := longestZeros 0 a.groups
  let text (groups : List Nat) := joinWith ':' (groups.map hexText)
  if length < 2 then text a.groups
  else text (a.groups.take place) ++ ':' :: ':' :: text (a.groups.drop (place + length))

/-- The text of an address. One that stands for an address of version 4 shows it. -/
def Ipv6.text (a : Ipv6) : List Char :=
  match a.groups with
  | [0, 0, 0, 0, 0, 0xFFFF, g, h] =>
    "::ffff:".toList ++ Ipv4.text ⟨[g / 256, g % 256, h / 256, h % 256]⟩
  | _ => a.compressed

def SocketAddress.text : SocketAddress → String
  | .v4 address port => String.ofList (address.text ++ ':' :: Natural.digits port)
  | .v6 address zone port =>
    let zone := if zone = 0 then [] else '%' :: Natural.digits zone
    String.ofList ('[' :: address.text ++ zone ++ ']' :: ':' :: Natural.digits port)

end CameraFleet.Network
