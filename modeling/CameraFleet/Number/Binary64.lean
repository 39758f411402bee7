/-!
# Double precision numbers

The numbers of IEEE 754 binary64. A finite magnitude is given by its rank among the finite
magnitudes, which is also its bit pattern, so a number has one representation. Every magnitude is
a natural number of units of `2 ^ (-1074)`, and an operation computes its exact result as a
quotient of natural numbers and rounds it once, to the nearest magnitude, a tie to the even one.
-/

namespace CameraFleet

/-- A double precision number; all numbers that are none are alike. -/
inductive Binary64 where
  | nan
  | infinity (negative : Bool)
  | finite (negative : Bool) (rank : Fin 0x7FF0000000000000)
  deriving DecidableEq, Inhabited

namespace Binary64

/-- The significand of the magnitude of a rank, below `2 ^ 53`. -/
def significand (rank : Nat) : Nat :=
  if rank < 0x10000000000000 then rank else 0x10000000000000 + rank % 0x10000000000000

/-- The power of two that the significand is multiplied by, counted from the smallest unit. -/
def exponent (rank : Nat) : Nat :=
  rank / 0x10000000000000 - 1

/-- The magnitude of a rank in units of `2 ^ (-1074)`. -/
def units (rank : Nat) : Nat :=
  significand rank <<< exponent rank

/-- One in units of `2 ^ (-1074)`. -/
def unit : Nat := 1 <<< 1074

/-- The natural number nearest to `n / d`, the even one of two. -/
def roundDiv (n d : Nat) : Nat :=
  let q := n / d
  let r := n % d
  if 2 * r < d then q else if d < 2 * r then q + 1 else q + q % 2

/-- The rank nearest to `n / d` units; past the last one the result is no rank. -/
def rankOf (n d : Nat) : Nat :=
  let whole := n / d
  let e := if whole < 0x20000000000000 then 0 else Nat.log2 whole - 52
  roundDiv n (d <<< e) + e * 0x10000000000000

/-- The number nearest to `n / d` units. -/
def ofUnits (negative : Bool) (n d : Nat) : Binary64 :=
  if h : rankOf n d < 0x7FF0000000000000 then .finite negative ⟨rankOf n d, h⟩
  else .infinity negative

/-- The number nearest to `n / d`. -/
def ofRatio (negative : Bool) (n d : Nat) : Binary64 :=
  ofUnits negative (n * unit) d

/-- The number nearest to an integer. -/
def ofInt (n : Int) : Binary64 :=
  ofRatio (n < 0) n.natAbs 1

/-- The number nearest to `m * 10 ^ e`. Exponents far outside the range are told from the number
of digits, so that no power of ten is too large to compute. -/
def ofDecimal (negative : Bool) (m : Nat) (e : Int) : Binary64 :=
  let size := (Nat.toDigits 10 m).length + e
  if m = 0 ∨ size < -330 then .finite negative 0
  else if 310 < size then .infinity negative
  else if 0 ≤ e then ofRatio negative (m * Nat.pow 10 e.toNat) 1
  else ofRatio negative m (Nat.pow 10 (-e).toNat)

/-- Zero of the given sign. -/
def zero (negative : Bool) : Binary64 :=
  .finite negative 0

def isZero : Binary64 → Bool
  | .finite _ rank => rank.val = 0
  | _ => false

def isFinite : Binary64 → Bool
  | .finite .. => true
  | _ => false

def negate : Binary64 → Binary64
  | .nan => .nan
  | .infinity negative => .infinity !negative
  | .finite negative rank => .finite (!negative) rank

/-- The product, rounded. -/
def mul : Binary64 → Binary64 → Binary64
  | .finite a x, .finite b y => ofUnits (a != b) (units x * units y) unit
  | .nan, _ | _, .nan => .nan
  | .infinity a, .infinity b => .infinity (a != b)
  | .infinity a, .finite b y => if y.val = 0 then .nan else .infinity (a != b)
  | .finite a x, .infinity b => if x.val = 0 then .nan else .infinity (a != b)

/-- The quotient, rounded. -/
def div : Binary64 → Binary64 → Binary64
  | .finite a x, .finite b y =>
    if y.val = 0 then (if x.val = 0 then .nan else .infinity (a != b))
    else ofRatio (a != b) (units x) (units y)
  | .nan, _ | _, .nan => .nan
  | .infinity _, .infinity _ => .nan
  | .infinity a, .finite b _ => .infinity (a != b)
  | .finite a _, .infinity b => zero (a != b)

/-- The natural number that this number is, either zero included. -/
def toNat? : Binary64 → Option Nat
  | .finite negative rank =>
    if units rank % unit = 0 ∧ (negative = false ∨ rank.val = 0) then some (units rank / unit)
    else none
  | _ => none

end Binary64

end CameraFleet
