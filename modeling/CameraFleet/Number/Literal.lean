import CameraFleet.Number.Binary64
import CameraFleet.Number.Natural

/-!
# Reading double precision numbers

The text of a number in decimal: a sign, digits around an optional point, an optional exponent,
or one of the words for infinity and for no number. The value is the number nearest to the
decimal.
-/

namespace CameraFleet.Binary64

/-- The value of an exponent part: a sign or none, and digits. -/
def exponent? (cs : List Char) : Option Int :=
  match cs with
  | '-' :: rest => (Natural.ofDigits? rest).map fun n => -(n : Int)
  | '+' :: rest => (Natural.ofDigits? rest).map Int.ofNat
  | _ => (Natural.ofDigits? cs).map Int.ofNat

/-- A decimal without sign: digits on at least one side of an optional point, and an optional
exponent. -/
def magnitude? (negative : Bool) (cs : List Char) : Option Binary64 := do
  let whole := cs.takeWhile Char.isDigit
  let rest := cs.dropWhile Char.isDigit
  let (fraction, rest) := match rest with
    | '.' :: rest => (rest.takeWhile Char.isDigit, rest.dropWhile Char.isDigit)
    | _ => ([], rest)
  let mantissa ← Natural.ofDigits? (whole ++ fraction)
  let e ← match rest with
    | [] => some 0
    | c :: rest => if c = 'e' ∨ c = 'E' then exponent? rest else none
  return ofDecimal negative mantissa (e - fraction.length)

/-- The number that a text denotes. Letter case does not matter in the words. -/
def ofText? (cs : List Char) : Option Binary64 :=
  let (negative, rest) := match cs with
    | '-' :: rest => (true, rest)
    | '+' :: rest => (false, rest)
    | _ => (false, cs)
  let word := String.ofList (rest.map Char.toLower)
  if word = "inf" ∨ word = "infinity" then some (.infinity negative)
  else if word = "nan" then some .nan
  else magnitude? negative rest

end CameraFleet.Binary64
