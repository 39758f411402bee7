import CameraFleet.Text.Hex

/-!
# Percent signs

A percent sign with two hexadecimal digits stands for a byte. One that no digits follow stands
for itself.
-/

namespace CameraFleet.Text

/-- A byte with a percent sign. -/
def percentEscape (b : UInt8) : List Char :=
  ['%', hexDigitUpper (b.toNat / 16), hexDigitUpper (b.toNat % 16)]

/-- The bytes of a character, each with a percent sign. -/
def percentEscapeChar (c : Char) : List Char :=
  (String.utf8EncodeChar c).flatMap percentEscape

/-- The text with every character escaped that `keep` does not hold of. -/
def percentEncode (keep : Char → Bool) (cs : List Char) : List Char :=
  cs.flatMap fun c => if keep c then [c] else percentEscapeChar c

/-- The bytes that an escaped text stands for. -/
def percentDecode : List Char → List UInt8
  | '%' :: a :: b :: cs =>
    match hexDigit? a, hexDigit? b with
    | some high, some low => UInt8.ofNat (high * 16 + low) :: percentDecode cs
    | _, _ => UInt8.ofNat '%'.toNat :: percentDecode (a :: b :: cs)
  | c :: cs => String.utf8EncodeChar c ++ percentDecode cs
  | [] => []

end CameraFleet.Text
