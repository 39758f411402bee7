import Mathlib.Tactic.Common
import CameraFleet.Number.Natural

/-!
# Canonical decimals

A run of digits is canonical exactly when it is what is written for the number that it denotes
(`isCanonical_iff`), so canonical digits and natural numbers correspond one to one.
-/

namespace CameraFleet.Natural

theorem digits_of_lt {n : Nat} (h : n < 10) : digits n = [n.digitChar] :=
  Nat.toDigits_of_lt_base h

/-- The last digit of a number stands behind the digits of a tenth of it. -/
theorem digits_append {n d : Nat} (hn : 0 < n) (hd : d < 10) :
    digits (10 * n + d) = digits n ++ [d.digitChar] := by
  rw [digits, ← Nat.toDigits_append_toDigits (by decide) hn hd, Nat.toDigits_of_lt_base hd]
  rfl

theorem digitChar_of_isDigit {c : Char} (h : c.isDigit = true) :
    ∃ d < 10, d = c.toNat - '0'.toNat ∧ c = d.digitChar := by
  have hc : 48 ≤ c.toNat ∧ c.toNat ≤ 57 := by
    simp only [Char.isDigit, Bool.and_eq_true, decide_eq_true_eq] at h
    exact ⟨UInt32.le_iff_toNat_le.1 h.1, UInt32.le_iff_toNat_le.1 h.2⟩
  have h0 : '0'.toNat = 48 := rfl
  refine ⟨c.toNat - '0'.toNat, by omega, rfl, Char.toNat_inj.1 ?_⟩
  rw [Nat.toNat_digitChar_of_lt_ten (by omega)]
  omega

/-- What holds of the ten digits holds of a digit. -/
@[elab_as_elim]
theorem of_isDigit {P : Char → Prop} {c : Char} (hc : c.isDigit = true)
    (h : ∀ d < 10, P (Nat.digitChar d)) : P c := by
  obtain ⟨d, hd, -, rfl⟩ := digitChar_of_isDigit hc
  exact h d hd

theorem head?_digits_ne_zero {n : Nat} (h : 0 < n) : (digits n).head? ≠ some '0' := by
  induction n using Nat.strongRecOn with
  | ind n ih =>
    by_cases hn : n < 10
    · rw [digits_of_lt hn]
      have hall : ∀ m < 10, 0 < m → [m.digitChar].head? ≠ some '0' := by decide
      exact hall n hn h
    · rw [show n = 10 * (n / 10) + n % 10 by omega,
        digits_append (by omega) (Nat.mod_lt _ (by decide)), List.head?_append]
      have hhead := ih (n / 10) (by omega) (by omega)
      rcases hd : digits (n / 10) with _ | ⟨c, cs⟩
      · exact absurd hd (digits_ne_nil _)
      · rw [hd] at hhead
        exact hhead

/-- Digits behind those of a positive number are the digits of what both denote. -/
theorem digits_ofDigitChars_append : ∀ (cs : List Char) (v : Nat), 0 < v →
    cs.all Char.isDigit = true → digits (Nat.ofDigitChars 10 cs v) = digits v ++ cs
  | [], v, _, _ => by simp
  | c :: cs, v, hv, hcs => by
    rw [List.all_cons, Bool.and_eq_true] at hcs
    obtain ⟨d, hd, hdc, rfl⟩ := digitChar_of_isDigit hcs.1
    rw [Nat.ofDigitChars_cons_digitChar_of_lt_ten hd,
      digits_ofDigitChars_append cs _ (by omega) hcs.2, digits_append hv hd, List.append_assoc]
    rfl

theorem isCanonical_digits (n : Nat) : isCanonical (digits n) = true := by
  rcases Nat.eq_zero_or_pos n with rfl | hn
  · rfl
  · have hne := digits_ne_nil n
    have hhead := head?_digits_ne_zero hn
    have hall : ∀ c ∈ digits n, c.isDigit = true := fun _ => isDigit_of_mem_digits
    simp only [isCanonical, Bool.or_eq_true, Bool.and_eq_true, decide_eq_true_eq, List.all_eq_true]
    exact Or.inr ⟨⟨hne, hhead⟩, hall⟩

theorem digits_of_isCanonical {cs : List Char} (h : isCanonical cs = true) :
    digits (Nat.ofDigitChars 10 cs 0) = cs := by
  simp only [isCanonical, Bool.or_eq_true, decide_eq_true_eq, Bool.and_eq_true, ne_eq] at h
  rcases h with rfl | ⟨⟨hne, hhead⟩, hall⟩
  · rfl
  · rcases cs with _ | ⟨c, cs⟩
    · exact absurd rfl hne
    rw [List.all_cons, Bool.and_eq_true] at hall
    obtain ⟨d, hd, -, rfl⟩ := digitChar_of_isDigit hall.1
    have hpos : 0 < d := by
      rcases Nat.eq_zero_or_pos d with rfl | hd
      · exact absurd rfl hhead
      · exact hd
    rw [Nat.ofDigitChars_cons_digitChar_of_lt_ten hd, Nat.mul_zero, Nat.zero_add,
      digits_ofDigitChars_append cs d hpos hall.2, digits_of_lt hd]
    rfl

theorem isCanonical_iff {cs : List Char} :
    isCanonical cs = true ↔ cs = digits (Nat.ofDigitChars 10 cs 0) :=
  ⟨fun h => (digits_of_isCanonical h).symm, fun h => h ▸ isCanonical_digits _⟩

@[simp] theorem ofDigitChars_digits (n : Nat) : Nat.ofDigitChars 10 (digits n) 0 = n :=
  Nat.ofDigitChars_ten_toDigits

theorem digits_injective {m n : Nat} (h : digits m = digits n) : m = n := by
  rw [← ofDigitChars_digits m, h, ofDigitChars_digits]

end CameraFleet.Natural
