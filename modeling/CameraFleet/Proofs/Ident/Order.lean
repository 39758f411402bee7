import CameraFleet.Ident
import Mathlib.Tactic.Common

/-!
# The order of identifiers

The comparison of identifiers is a total order in which only equal identifiers compare as equal
(`Ident` has the instances `TransOrd` and `LawfulEqOrd`): all numbers come before all names, and
among themselves both kinds are compared lawfully. Numbers come in the order of their values
(`compare_number_eq_lt`), and names in the lexicographic order of their bytes
(`compare_name_eq_lt`).
-/

namespace CameraFleet.Ident

open Std

theorem textBytes_injective {s t : String} (h : textBytes s = textBytes t) : s = t := by
  unfold textBytes at h
  have hb : s.toByteArray = t.toByteArray := by
    rcases hs : s.toByteArray with ⟨⟨bs⟩⟩
    rcases ht : t.toByteArray with ⟨⟨bt⟩⟩
    rw [hs, ht] at h
    subst h
    rfl
  exact String.toByteArray_inj.1 hb

theorem compare_number (a b : UInt64) : Ident.compare (number a) (number b) = compare a b := rfl

theorem compare_name (a b : String) :
    Ident.compare (name a) (name b) = compare (textBytes a) (textBytes b) := rfl

theorem compare_swap (a b : Ident) : Ident.compare a b = (Ident.compare b a).swap := by
  rcases a with a | a <;> rcases b with b | b
  · rw [compare_number, compare_number]
    exact OrientedCmp.eq_swap
  · rfl
  · rfl
  · rw [compare_name, compare_name]
    exact OrientedCmp.eq_swap

theorem isLE_trans {a b c : Ident} (hab : (Ident.compare a b).isLE)
    (hbc : (Ident.compare b c).isLE) : (Ident.compare a c).isLE := by
  rcases a with a | a <;> rcases b with b | b <;> rcases c with c | c
  · rw [compare_number] at hab hbc ⊢
    exact TransCmp.isLE_trans hab hbc
  · rfl
  · exact absurd hbc (by simp [Ident.compare])
  · rfl
  · exact absurd hab (by simp [Ident.compare])
  · exact absurd hab (by simp [Ident.compare])
  · exact absurd hbc (by simp [Ident.compare])
  · rw [compare_name] at hab hbc ⊢
    exact TransCmp.isLE_trans hab hbc

theorem eq_of_compare {a b : Ident} (h : Ident.compare a b = .eq) : a = b := by
  rcases a with a | a <;> rcases b with b | b
  · rw [compare_number] at h
    rw [LawfulEqCmp.eq_of_compare h]
  · exact absurd h (by simp [Ident.compare])
  · exact absurd h (by simp [Ident.compare])
  · rw [compare_name] at h
    rw [textBytes_injective (LawfulEqCmp.eq_of_compare h)]

instance : TransOrd Ident where
  eq_swap {a b} := compare_swap a b
  isLE_trans hab hbc := isLE_trans hab hbc

instance : LawfulEqOrd Ident where
  eq_of_compare h := eq_of_compare h

theorem compare_number_eq_lt {m n : UInt64} :
    compare (number m) (number n) = .lt ↔ m.toNat < n.toNat := by
  rw [← UInt64.lt_iff_toNat_lt]
  exact (compare_eq_lt : compare m n = .lt ↔ m < n)

theorem compare_bytes_eq_lt : ∀ {bs cs : List UInt8}, compare bs cs = .lt ↔ bs < cs
  | [], [] => by simp
  | [], _ :: _ => by simp
  | _ :: _, [] => by simp
  | b :: bs, c :: cs => by
    rw [List.compare_cons_cons, List.cons_lt_cons_iff, ← compare_bytes_eq_lt, Ordering.then_eq_lt,
      compare_eq_lt, compare_eq_eq_iff_eq]

theorem compare_name_eq_lt {s t : String} :
    compare (name s) (name t) = .lt ↔ s.toUTF8.data.toList < t.toUTF8.data.toList :=
  compare_bytes_eq_lt

end CameraFleet.Ident
