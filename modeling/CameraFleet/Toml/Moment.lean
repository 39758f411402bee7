import CameraFleet.Number.Natural

/-!
# Dates and times in TOML

A date, a time, or a date and a time with or without an offset. Every part has its number of
digits and its range; the seconds may be left out, and February has 29 days in leap years only.
-/

namespace CameraFleet.Toml.Moment

/-- A number of exactly `count` digits in a range, and what follows it. The digits end there. -/
def part? (count low high : Nat) (cs : List Char) : Option (Nat × List Char) := do
  let digits := cs.takeWhile Char.isDigit
  if digits.length = count then
    let n ← Natural.ofDigits? digits
    if low ≤ n ∧ n ≤ high then some (n, cs.drop count) else none
  else none

/-- What follows a character that has to come next. -/
def after? (p : Char → Bool) : List Char → Option (List Char)
  | c :: rest => if p c then some rest else none
  | [] => none

def isLeapYear (year : Nat) : Bool :=
  year % 4 = 0 && (year % 100 ≠ 0 || year % 400 = 0)

def daysIn (year month : Nat) : Nat :=
  if month = 2 then (if isLeapYear year then 29 else 28)
  else if month ∈ [4, 6, 9, 11] then 30
  else 31

/-- A date, and what follows it. -/
def date? (cs : List Char) : Option (List Char) := do
  let (year, cs) ← part? 4 0 9999 cs
  let cs ← after? (· = '-') cs
  let (month, cs) ← part? 2 1 12 cs
  let cs ← after? (· = '-') cs
  let (_, cs) ← part? 2 1 (daysIn year month) cs
  return cs

/-- A fraction of a second, if there is one, and what follows it. -/
def fraction? : List Char → Option (List Char)
  | '.' :: cs => if (cs.takeWhile Char.isDigit).isEmpty then none else
      some (cs.dropWhile Char.isDigit)
  | cs => some cs

/-- A time of day, and what follows it. A second may be the sixtieth. -/
def time? (cs : List Char) : Option (List Char) := do
  let (_, cs) ← part? 2 0 23 cs
  let cs ← after? (· = ':') cs
  let (_, cs) ← part? 2 0 59 cs
  match cs with
  | ':' :: cs => do
    let (_, cs) ← part? 2 0 60 cs
    fraction? cs
  | _ => some cs

/-- Whether the text is an offset or nothing. -/
def isOffset : List Char → Bool
  | [] => true
  | ['Z'] | ['z'] => true
  | c :: cs =>
    (c = '+' || c = '-') && (do
      let (_, cs) ← part? 2 0 23 cs
      let cs ← after? (· = ':') cs
      let (_, cs) ← part? 2 0 59 cs
      return cs.isEmpty).getD false

/-- Whether the text is a date, a time or both. -/
def isMoment (cs : List Char) : Bool :=
  match date? cs with
  | some [] => true
  | some (c :: rest) =>
    (c = 'T' || c = 't' || c = ' ') && ((time? rest).map isOffset).getD false
  | none => (time? cs).map List.isEmpty |>.getD false

end CameraFleet.Toml.Moment
