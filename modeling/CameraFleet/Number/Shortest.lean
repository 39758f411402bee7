import CameraFleet.Number.Literal

/-!
# Writing double precision numbers

The fewest digits that read back as the number, and of those the nearest. They are laid out in
two ways: positional text without an exponent, and the text of a document, which always shows a
point or an exponent.
-/

namespace CameraFleet.Binary64

/-- A decimal `0.d₁d₂… * 10 ^ point`. -/
structure Decimal where
  digits : List Char
  point : Int
  deriving DecidableEq

/-- The decimal of `m * 10 ^ e`, without zeros at its end. -/
def Decimal.of (m : Nat) (e : Int) : Decimal :=
  let ds := Natural.digits m
  ⟨(ds.reverse.dropWhile (· = '0')).reverse, ds.length + e⟩

/-- The greatest `k` with `10 ^ k ≤ n / d`, for a positive quotient. -/
def leadingExponent (n d : Nat) : Int :=
  if d ≤ n then (Natural.digits (n / d)).length - 1
  else -(Natural.digits ((d + n - 1) / n - 1)).length

/-- `n / d` in units of `10 ^ e`: the numerator and denominator of the quotient. -/
def inUnitsOf (n d : Nat) (e : Int) : Nat × Nat :=
  if 0 ≤ e then (n, d * Nat.pow 10 e.toNat) else (n * Nat.pow 10 (-e).toNat, d)

/-- The decimal with `count` digits that reads back as the number, if there is one: the one below
the number or the one above it, of both the nearer, of two as near the even. -/
def withDigits? (negative : Bool) (rank : Fin 0x7FF0000000000000) (count : Nat) :
    Option Decimal :=
  let n := units rank
  let e := leadingExponent n unit - ((count : Int) - 1)
  let (n, d) := inUnitsOf n unit e
  let below := n / d
  let reads (m : Nat) : Bool := ofDecimal negative m e = .finite negative rank
  if reads below then
    if reads (below + 1) ∧ roundDiv n d ≠ below then some (.of (below + 1) e)
    else some (.of below e)
  else if reads (below + 1) then some (.of (below + 1) e)
  else none

/-- The fewest digits that read back. Seventeen are always enough; the last resort is the exact
value. -/
def shortest (negative : Bool) (rank : Fin 0x7FF0000000000000) : Decimal :=
  ((List.range 17).findSome? fun i => withDigits? negative rank (i + 1)).getD
    (.of (units rank * Nat.pow 5 1074) (-1074))

/-- Digits and a point, without an exponent; `tail` stands behind a whole number. -/
def Decimal.positional (d : Decimal) (tail : List Char) : List Char :=
  if d.point ≤ 0 then '0' :: '.' :: (List.replicate (-d.point).toNat '0' ++ d.digits)
  else
    let before := d.point.toNat
    if before < d.digits.length then d.digits.take before ++ '.' :: d.digits.drop before
    else d.digits ++ List.replicate (before - d.digits.length) '0' ++ tail

/-- One digit before the point, and an exponent with its sign. -/
def Decimal.scientific (d : Decimal) : List Char :=
  let e := d.point - 1
  d.digits.take 1 ++ (if d.digits.length ≤ 1 then [] else '.' :: d.digits.drop 1) ++
    'e' :: (if e < 0 then '-' else '+') :: Natural.digits e.natAbs

/-- The minus sign of a negative number. -/
def signed (negative : Bool) (cs : List Char) : List Char :=
  if negative then '-' :: cs else cs

/-- The number without an exponent and, if it is whole, without a point. -/
def plain : Binary64 → String
  | .nan => "NaN"
  | .infinity negative => String.ofList (signed negative ['i', 'n', 'f'])
  | .finite negative rank => String.ofList <| signed negative <|
    if rank.val = 0 then ['0'] else (shortest negative rank).positional []

/-- The number as a document holds it: with at least one place behind the point, and with an
exponent below `10 ^ (-5)` and from `10 ^ 16` on. A document has no text for the others. -/
def document : Binary64 → List Char
  | .nan | .infinity _ => ['n', 'u', 'l', 'l']
  | .finite negative rank => signed negative <|
    if rank.val = 0 then ['0', '.', '0']
    else
      let d := shortest negative rank
      if -5 < d.point ∧ d.point ≤ 16 then d.positional ['.', '0'] else d.scientific

end CameraFleet.Binary64
