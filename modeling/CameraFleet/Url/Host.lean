import CameraFleet.Text.Percent
import CameraFleet.Text.Utf8
import CameraFleet.Url.Basic
import CameraFleet.Url.Domain

/-!
# Hosts of URLs

The host of a URL with a well-known scheme is an address of version 6 in brackets, an address of
version 4, or a name. A name whose last label is a number is taken for an address of version 4,
whose numbers may be octal or hexadecimal, and the last of which stands for all bytes that are
left. With any other scheme the host is an address of version 6 or any text.
-/

namespace CameraFleet.Url.Host

/-- The base of a number by its prefix, and its digits. -/
def numberBase (cs : List Char) : Nat × List Char :=
  match cs with
  | '0' :: x :: rest => if x = 'x' ∨ x = 'X' then (16, rest) else (8, x :: rest)
  | _ => (10, cs)

/-- A number in an address. -/
def number? (cs : List Char) : Option Nat :=
  let (base, digits) := numberBase cs
  let isDigit (c : Char) : Bool := (Text.hexDigit? c).any (· < base)
  if cs ≠ [] ∧ digits.all isDigit then
    some (digits.foldl (fun n c => n * base + (Text.hexDigit? c).getD 0) 0)
  else none

/-- The parts of a name, without an empty one at its end. -/
def parts (cs : List Char) : List (List Char) :=
  let labels := Text.splitOn '.' cs
  if labels.getLast? = some [] then labels.dropLast else labels

/-- Whether a name has to be an address of version 4. -/
def endsInNumber (cs : List Char) : Bool :=
  match (parts cs).getLast? with
  | none => false
  | some last => (!last.isEmpty && last.all Char.isDigit) || (number? last).isSome

/-- The bytes of a number, at most four. -/
def bytesOf (n : Nat) : List Nat :=
  [n / 0x1000000 % 256, n / 0x10000 % 256, n / 0x100 % 256, n % 256]

/-- The address of version 4 that a name is. -/
def ipv4? (cs : List Char) : Option Network.Ipv4 := do
  let numbers ← (parts cs).mapM number?
  let last ← numbers.getLast?
  let first := numbers.dropLast
  if numbers.length ≤ 4 ∧ first.all (· < 256) ∧ last < Nat.pow 256 (4 - first.length) then
    some ⟨first ++ (bytesOf last).drop first.length⟩
  else none

/-- An address of version 6 behind a bracket. -/
def bracketed (cs : List Char) : Except Problem Host :=
  if cs.getLast? = some ']' then
    match Network.ipv6? cs.dropLast with
    | some (address, []) => .ok (.ipv6 address)
    | _ => .error .invalidIpv6
  else .error .invalidIpv6

/-- A name or an address of version 4. -/
def named (cs : List Char) : Except Problem Host :=
  let decoded := Utf8.decodeLossy ⟨(Text.percentDecode cs).toArray⟩
  match Domain.toAscii? decoded.toList with
  | none => .error .invalidDomain
  | some [] => .error .emptyHost
  | some name =>
    if endsInNumber name then
      match ipv4? name with
      | some address => .ok (.ipv4 address)
      | none => .error .invalidIpv4
    else .ok (.domain (String.ofList name))

/-- The host of a URL with a well-known scheme. -/
def special (cs : List Char) : Except Problem Host :=
  match cs with
  | [] => .error .emptyHost
  | '[' :: rest => bracketed rest
  | _ => named cs

/-- The characters that are in no host. -/
def isForbidden (c : Char) : Bool :=
  c ∈ ['\x00', '\t', '\n', '\r', ' ', '#', '/', ':', '<', '>', '?', '@', '[', '\\', ']', '^', '|']

/-- The characters that need no escape in any part of a URL. -/
def isVisible (c : Char) : Bool :=
  ' ' ≤ c && c < '\x7f'

/-- The host of a URL with any other scheme. -/
def plain (cs : List Char) : Except Problem Host :=
  match cs with
  | '[' :: rest => bracketed rest
  | _ =>
    if cs.any isForbidden then .error .invalidDomainCharacter
    else .ok (.domain (String.ofList (Text.percentEncode isVisible cs)))

end CameraFleet.Url.Host
