/-!
# Words

Arithmetic on words of 32 bits that has no result where the exact one is no word, and none for a
division by zero.
-/

namespace CameraFleet.Word

/-- The word of a number, if it is one. -/
def ofNat? (n : Nat) : Option UInt32 :=
  if n < UInt32.size then some (UInt32.ofNat n) else none

def add? (a b : UInt32) : Option UInt32 :=
  ofNat? (a.toNat + b.toNat)

def mul? (a b : UInt32) : Option UInt32 :=
  ofNat? (a.toNat * b.toNat)

def sub? (a b : UInt32) : Option UInt32 :=
  if b ≤ a then some (a - b) else none

def div? (a b : UInt32) : Option UInt32 :=
  if b = 0 then none else some (a / b)

def mod? (a b : UInt32) : Option UInt32 :=
  if b = 0 then none else some (a % b)

/-- The value between two bounds that is nearest; there is none if they are out of order. -/
def clamp? (value low high : UInt32) : Option UInt32 :=
  if low ≤ high then some (if value < low then low else if high < value then high else value)
  else none

/-! ## Results -/

variable {a b : UInt32}

theorem ofNat?_of_lt {n : Nat} (h : n < UInt32.size) : ∃ c, ofNat? n = some c ∧ c.toNat = n :=
  ⟨UInt32.ofNat n, if_pos h, UInt32.toNat_ofNat_of_lt' h⟩

theorem add?_of_lt (h : a.toNat + b.toNat < UInt32.size) :
    ∃ c, add? a b = some c ∧ c.toNat = a.toNat + b.toNat :=
  ofNat?_of_lt h

theorem mul?_of_lt (h : a.toNat * b.toNat < UInt32.size) :
    ∃ c, mul? a b = some c ∧ c.toNat = a.toNat * b.toNat :=
  ofNat?_of_lt h

theorem sub?_of_le (h : b ≤ a) : ∃ c, sub? a b = some c ∧ c.toNat = a.toNat - b.toNat :=
  ⟨a - b, if_pos h, UInt32.toNat_sub_of_le a b h⟩

theorem div?_of_ne_zero (h : b ≠ 0) : ∃ c, div? a b = some c ∧ c.toNat = a.toNat / b.toNat :=
  ⟨a / b, if_neg h, UInt32.toNat_div a b⟩

theorem mod?_of_ne_zero (h : b ≠ 0) : ∃ c, mod? a b = some c ∧ c.toNat = a.toNat % b.toNat :=
  ⟨a % b, if_neg h, UInt32.toNat_mod a b⟩

end CameraFleet.Word
