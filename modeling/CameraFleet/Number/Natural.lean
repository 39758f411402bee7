/-!
# Natural numbers in decimal

The decimal text of a natural number and the ways to read one: any run of digits, the text of a
machine word, and the canonical text alone.
-/

namespace CameraFleet.Natural

/-- The decimal digits of a number, without leading zeros. -/
def digits (n : Nat) : List Char :=
  Nat.toDigits 10 n

/-- The decimal text of a number. -/
def toText (n : Nat) : String :=
  String.ofList (digits n)

/-- The decimal text of an integer, with a minus sign where it is negative. -/
def intText (n : Int) : String :=
  String.ofList (if n < 0 then '-' :: digits n.natAbs else digits n.natAbs)

/-- The value of a run of digits, which has at least one. -/
def ofDigits? (cs : List Char) : Option Nat :=
  if cs ≠ [] ∧ cs.all Char.isDigit then some (Nat.ofDigitChars 10 cs 0) else none

/-- A word below `limit`: digits with any leading zeros, behind a plus sign or none. -/
def word? (limit : Nat) (cs : List Char) : Option Nat :=
  let cs := match cs with
    | '+' :: rest => rest
    | _ => cs
  match ofDigits? cs with
  | some n => if n < limit then some n else none
  | none => none

/-- Digits only, and no leading zero but that of zero itself. -/
def isCanonical (cs : List Char) : Bool :=
  cs = ['0'] || (cs ≠ [] && cs.head? ≠ some '0' && cs.all Char.isDigit)

theorem digits_ne_nil (n : Nat) : digits n ≠ [] := Nat.toDigits_ne_nil

theorem isDigit_of_mem_digits {n : Nat} {c : Char} (h : c ∈ digits n) : c.isDigit = true :=
  Nat.isDigit_of_mem_toDigits (by decide) (by decide) h

@[simp] theorem ofDigits?_digits (n : Nat) : ofDigits? (digits n) = some n := by
  have h : (digits n).all Char.isDigit = true :=
    List.all_eq_true.2 fun _ hc => isDigit_of_mem_digits hc
  rw [ofDigits?, if_pos ⟨digits_ne_nil n, h⟩, digits, Nat.ofDigitChars_ten_toDigits]

end CameraFleet.Natural
