import CameraFleet.Number.Literal
import CameraFleet.Toml.Moment
import CameraFleet.Toml.Text

/-!
# Scalars in TOML

Words, integers in four bases, doubles, dates and times. Underscores may stand between digits. An
integer beyond 64 bits is well-formed up to 128 bits, but has no use.
-/

namespace CameraFleet.Toml

/-- The digits of a run in which underscores stand only between digits. -/
def digitRun? (isDigit : Char → Bool) : List Char → Option (List Char)
  | [] => none
  | [c] => if isDigit c then some [c] else none
  | c :: '_' :: d :: rest =>
    if isDigit c ∧ isDigit d then (digitRun? isDigit (d :: rest)).map (c :: ·) else none
  | c :: rest => if isDigit c then (digitRun? isDigit rest).map (c :: ·) else none

/-- The value of digits in a base up to sixteen. -/
def inBase (base : Nat) (cs : List Char) : Nat :=
  cs.foldl (fun n c => n * base + (Text.hexDigit? c).getD 0) 0

/-- An integer as a value: readable up to 64 bits, and well-formed up to 128. -/
def integer? (n : Int) : Option Datum :=
  if -0x8000000000000000 ≤ n ∧ n < 0x10000000000000000 then some (.integer n)
  else if -0x80000000000000000000000000000000 ≤ n ∧ n < 0x100000000000000000000000000000000 then
    some .unreadable
  else none

/-- The base that a letter behind a zero names. -/
def base? : Char → Option Nat
  | 'x' => some 16
  | 'o' => some 8
  | 'b' => some 2
  | _ => none

def isDigitIn (base : Nat) (c : Char) : Bool :=
  ((Text.hexDigit? c).map (decide <| · < base)).getD false

/-- A decimal integer without sign: digits without a leading zero. -/
def decimal? (cs : List Char) : Option (List Char) :=
  match digitRun? Char.isDigit cs with
  | some ['0'] => some ['0']
  | some ('0' :: _) => none
  | run => run

/-- The exponent of a double, given what follows its letter. -/
def exponent? (cs : List Char) : Option Int :=
  let value (cs : List Char) := (digitRun? Char.isDigit cs).map fun ds => Nat.ofDigitChars 10 ds 0
  match cs with
  | '-' :: rest => (value rest).map fun n => -(n : Int)
  | '+' :: rest => (value rest).map Int.ofNat
  | _ => (value cs).map Int.ofNat

def isExponentLetter (c : Char) : Bool :=
  c = 'e' || c = 'E'

/-- A double without sign. It has a fraction, an exponent or both, and it is finite. -/
def double? (negative : Bool) (cs : List Char) : Option Datum := do
  let mantissa := cs.takeWhile (!isExponentLetter ·)
  let e ← match cs.dropWhile (!isExponentLetter ·) with
    | [] => some 0
    | _ :: rest => exponent? rest
  let before ← decimal? (mantissa.takeWhile (· ≠ '.'))
  let fraction ← match mantissa.dropWhile (· ≠ '.') with
    | [] => some []
    | _ :: rest => digitRun? Char.isDigit rest
  let x := Binary64.ofDecimal negative (Nat.ofDigitChars 10 (before ++ fraction) 0)
    (e - fraction.length)
  if x.isFinite then some (.real x) else none

/-- A number without sign. -/
def unsigned? (negative : Bool) (cs : List Char) : Option Datum :=
  if cs = ['i', 'n', 'f'] then some (.real (.infinity negative))
  else if cs = ['n', 'a', 'n'] then some (.real .nan)
  else match decimal? cs with
    | some ds =>
      let n : Int := Nat.ofDigitChars 10 ds 0
      integer? (if negative then -n else n)
    | none => double? negative cs

/-- A scalar without quotes. -/
def scalar? (cs : List Char) : Option Datum :=
  match cs with
  | ['t', 'r', 'u', 'e'] => some (.bool true)
  | ['f', 'a', 'l', 's', 'e'] => some (.bool false)
  | '-' :: rest => unsigned? true rest
  | '+' :: rest => unsigned? false rest
  | '0' :: letter :: rest =>
    match base? letter with
    | some base => do
      let digits ← digitRun? (isDigitIn base) rest
      integer? (inBase base digits)
    | none => if Moment.isMoment cs then some .moment else unsigned? false cs
  | _ => if Moment.isMoment cs then some .moment else unsigned? false cs

/-- The characters that scalars without quotes are made of. -/
def inScalar (c : Char) : Bool :=
  c.isAlphanum || c = '_' || c = '+' || c = '-' || c = '.' || c = ':'

/-- A scalar without quotes at the beginning, and what follows it. A date may be followed by a
blank and a time. -/
def leadingScalar? (cs : List Char) : Option (Datum × List Char) :=
  let word := cs.takeWhile inScalar
  let rest := cs.dropWhile inScalar
  let (word, rest) := match Moment.date? word, rest with
    | some [], ' ' :: d :: more =>
      if d.isDigit then
        (word ++ ' ' :: (d :: more).takeWhile inScalar, (d :: more).dropWhile inScalar)
      else (word, rest)
    | _, _ => (word, rest)
  (scalar? word).map (·, rest)

end CameraFleet.Toml
