import CameraFleet.Text.Blank

/-!
# Spans of time

A span is a sum of numbers with units, such as 1min 5s. Blanks may stand between them, and a
number has to have a unit. Numbers and sums have 64 bits.
-/

namespace CameraFleet.CommandLine.Duration

/-- The nanoseconds in a second. -/
def second : Nat := 1000000000

/-- The nanoseconds in a unit. -/
def unit? (name : String) : Option Nat :=
  match name with
  | "nanos" | "nsec" | "ns" => some 1
  | "usec" | "us" | "µs" => some 1000
  | "millis" | "msec" | "ms" => some 1000000
  | "seconds" | "second" | "secs" | "sec" | "s" => some second
  | "minutes" | "minute" | "min" | "mins" | "m" => some (60 * second)
  | "hours" | "hour" | "hr" | "hrs" | "h" => some (3600 * second)
  | "days" | "day" | "d" => some (86400 * second)
  | "weeks" | "week" | "wk" | "wks" | "w" => some (7 * 86400 * second)
  | "months" | "month" | "M" => some (2630016 * second)
  | "years" | "year" | "yr" | "yrs" | "y" => some (31557600 * second)
  | _ => none

def isUnitChar (c : Char) : Bool := c.isAlpha || c = 'µ'

/-- The digits of a number, between which blanks do not count, and what follows. -/
def isNumberChar (c : Char) : Bool := c.isDigit || Text.isBlank c

/-- A number below 2 ^ 64. -/
def number? (cs : List Char) : Option Nat :=
  let digits := cs.filter Char.isDigit
  let n := Nat.ofDigitChars 10 digits 0
  if digits ≠ [] ∧ n < UInt64.size then some n else none

/-- The nanoseconds of a number with a unit. Units of whole seconds count seconds in 64 bits, and
smaller ones nanoseconds. -/
def amount? (n : Nat) (unit : String) : Option Nat :=
  (unit? unit).bind fun scale =>
    let counted := if scale < second then n * scale else n * (scale / second)
    if counted < UInt64.size then some (n * scale) else none

/-- Reads at most `count` numbers with units, in which the text ends, and adds them to `sum`. -/
def sum? (count sum : Nat) (cs : List Char) : Option Nat :=
  match count with
  | 0 => none
  | count + 1 =>
    let rest := cs.dropWhile isNumberChar
    let unit := rest.takeWhile isUnitChar
    match number? (cs.takeWhile isNumberChar) with
    | none => none
    | some n =>
      match amount? n (String.ofList unit) with
      | none => none
      | some amount =>
        let sum := sum + amount
        let rest := (rest.dropWhile isUnitChar)
        let next := rest.dropWhile Text.isBlank
        if UInt64.size ≤ sum / second then none
        else if next = [] then some sum
        else sum? count sum next

/-- The nanoseconds of a span. -/
def parse? (s : String) : Option Nat :=
  sum? (s.length + 1) 0 (s.toList.dropWhile Text.isBlank)

end CameraFleet.CommandLine.Duration
