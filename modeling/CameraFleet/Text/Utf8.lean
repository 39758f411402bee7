/-!
# UTF-8

Bytes as a sequence of symbols: a character where the bytes encode one, and no character for
each longest run of bytes that only begins an encoding. Text that is read leniently shows
U+FFFD in those places.
-/

namespace CameraFleet.Utf8

/-- One place of a byte sequence: a character, or bytes that encode none. -/
abbrev Symbol := Option Char

/-- The symbols of a text. -/
def ofText (s : String) : List Symbol :=
  s.toList.map some

/-- The number of continuation bytes behind a leading byte, the bounds of the first of them, and
the bits that the leading byte adds. -/
def lead (b : UInt8) : Option (Nat × UInt8 × UInt8 × Nat) :=
  if b < 0xC2 then none
  else if b < 0xE0 then some (1, 0x80, 0xBF, b.toNat - 0xC0)
  else if b = 0xE0 then some (2, 0xA0, 0xBF, 0)
  else if b = 0xED then some (2, 0x80, 0x9F, 13)
  else if b < 0xF0 then some (2, 0x80, 0xBF, b.toNat - 0xE0)
  else if b = 0xF0 then some (3, 0x90, 0xBF, 0)
  else if b < 0xF4 then some (3, 0x80, 0xBF, b.toNat - 0xF0)
  else if b = 0xF4 then some (3, 0x80, 0x8F, 4)
  else none

/-- A character that is being read: how many bytes are still to come, the bounds of the next one,
and the bits so far. -/
structure Pending where
  left : Nat
  low : UInt8
  high : UInt8
  bits : Nat

/-- The symbols of one byte that begins afresh, before those already found. -/
def start (b : UInt8) (found : List Symbol) : Option Pending × List Symbol :=
  if b < 0x80 then (none, some (Char.ofNat b.toNat) :: found)
  else match lead b with
    | none => (none, none :: found)
    | some (left, low, high, bits) => (some ⟨left, low, high, bits⟩, found)

/-- Reads the bytes one by one; the symbols come in reverse. -/
def readFrom : Option Pending → List Symbol → List UInt8 → List Symbol
  | none, found, [] => found
  | some _, found, [] => none :: found
  | none, found, b :: bs =>
    let (pending, found) := start b found
    readFrom pending found bs
  | some p, found, b :: bs =>
    if p.low ≤ b ∧ b ≤ p.high then
      let bits := p.bits * 64 + (b.toNat - 0x80)
      if p.left ≤ 1 then readFrom none (some (Char.ofNat bits) :: found) bs
      else readFrom (some ⟨p.left - 1, 0x80, 0xBF, bits⟩) found bs
    else
      let (pending, found) := start b (none :: found)
      readFrom pending found bs

/-- The symbols of a byte sequence. -/
def symbols (bytes : ByteArray) : List Symbol :=
  match String.fromUTF8? bytes with
  | some s => ofText s
  | none => (readFrom none [] bytes.data.toList).reverse

/-- The text with U+FFFD in the places that hold no character. -/
def decodeLossy (bytes : ByteArray) : String :=
  match String.fromUTF8? bytes with
  | some s => s
  | none => String.ofList ((symbols bytes).map (·.getD '\uFFFD'))

theorem fromUTF8?_toUTF8 (s : String) : String.fromUTF8? s.toUTF8 = some s := by
  simp [String.fromUTF8?, String.fromUTF8, s.isValidUTF8]

@[simp] theorem symbols_toUTF8 (s : String) : symbols s.toUTF8 = ofText s := by
  simp only [symbols, fromUTF8?_toUTF8]

@[simp] theorem decodeLossy_toUTF8 (s : String) : decodeLossy s.toUTF8 = s := by
  simp only [decodeLossy, fromUTF8?_toUTF8]

end CameraFleet.Utf8
