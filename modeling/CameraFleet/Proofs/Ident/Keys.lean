import CameraFleet.Proofs.Ident.Canonical
import CameraFleet.Proofs.Registry.Seeding

/-!
# Identifiers as keys

Texts and the identifiers that they name correspond one to one, and a text names a number exactly
when it is written as a number is (`exists_ofText_eq_number_iff`). The order of identifiers never
takes two of them for one, so a camera is found under its own identifier and under no other
(`ofText_keys`).
-/

namespace CameraFleet

namespace Ident

/-- The text consists of digits, without a sign and without a zero in front of others. -/
structure IsDecimal (s : String) : Prop where
  ne_empty : s ≠ ""
  digits : ∀ c ∈ s.toList, c.isDigit
  zero : s.toList.head? = some '0' → s = "0"

theorem isCanonical_iff_isDecimal {s : String} :
    Natural.isCanonical s.toList = true ↔ IsDecimal s := by
  have hzero : s.toList = ['0'] ↔ s = "0" := by
    rw [← String.toList_inj]
    rfl
  simp only [Natural.isCanonical, Bool.or_eq_true, Bool.and_eq_true, decide_eq_true_eq,
    List.all_eq_true, hzero, ne_eq, String.toList_eq_nil_iff]
  constructor
  · rintro (rfl | ⟨⟨hne, hhead⟩, hdigits⟩)
    · exact ⟨by simp, by simp [Char.isDigit], fun _ => rfl⟩
    · exact ⟨hne, hdigits, fun h => absurd h hhead⟩
  · rintro ⟨hne, hdigits, hhead⟩
    by_cases h : s.toList.head? = some '0'
    · exact Or.inl (hhead h)
    · exact Or.inr ⟨⟨hne, h⟩, hdigits⟩

theorem ofText_injective : Function.Injective ofText := fun s t h => by
  rw [← toText_ofText s, h, toText_ofText]

/-- A text names a number exactly when it is the text of the number. -/
theorem ofText_eq_number_iff {s : String} {n : UInt64} :
    ofText s = number n ↔ s = Natural.toText n.toNat := by
  constructor
  · intro h
    rw [← toText_ofText s, h]
    rfl
  · rintro rfl
    exact isCanonical_number n

/-- A text names a number exactly when it is written as numbers are, and the number that it is
written for has 64 bits. -/
theorem exists_ofText_eq_number_iff {s : String} : (∃ n, ofText s = number n) ↔
    IsDecimal s ∧ Nat.ofDigitChars 10 s.toList 0 < 2 ^ 64 := by
  rw [← isCanonical_iff_isDecimal]
  constructor
  · rintro ⟨n, h⟩
    obtain rfl := ofText_eq_number_iff.1 h
    rw [Natural.toText, String.toList_ofList, Natural.ofDigitChars_digits]
    exact ⟨Natural.isCanonical_digits _, n.toNat_lt⟩
  · rintro ⟨hcanonical, hlt⟩
    refine ⟨UInt64.ofNat (Nat.ofDigitChars 10 s.toList 0), ofText_eq_number_iff.2 ?_⟩
    rw [UInt64.toNat_ofNat_of_lt' hlt, Natural.toText, Natural.digits_of_isCanonical hcanonical,
      String.ofList_toList]

end Ident

namespace Registry

open Ident Std

variable {r : Registry} {seeds : List Camera}

/-- A camera is found under what compares as equal to its identifier, and under nothing else. -/
theorem Holds.get?_eq_some_iff (h : r.Holds seeds) {i : Ident} {c : Camera} :
    r.get? i = some c ↔ c ∈ r.toList ∧ compare i c.index = .eq := by
  rw [compare_eq_eq_iff_eq]
  constructor
  · intro hget
    obtain ⟨hc, hindex⟩ := h.mem_of_get? hget
    exact ⟨hc, hindex.symm⟩
  · rintro ⟨hc, rfl⟩
    exact (h.get?_of_mem hc).1

/-- The text of the camera that a text leads to is this text. -/
theorem Holds.toText_of_get? (h : r.Holds seeds) {s : String} {c : Camera}
    (hget : r.get? (ofText s) = some c) : c.index.toText = s := by
  rw [(h.mem_of_get? hget).2, toText_ofText]

end Registry

namespace Ident

open Std

/-- What a text names is shown as the text, so two texts never name the same; it is a number exactly
for the texts that numbers have. The order of identifiers is total, takes none but equal ones for
equal, and has the numbers by value in front of the names by their bytes. So whatever patches a
registry has seen, each of its cameras has a key of its own, in ascending order, and a text leads
to no camera but the one that it is the text of. -/
theorem ofText_keys :
    (∀ s, (ofText s).toText = s) ∧ Function.Injective ofText ∧
    (∀ s n, ofText s = number n ↔ s = Natural.toText n.toNat) ∧
    (∀ s, (∃ n, ofText s = number n) ↔
      IsDecimal s ∧ Nat.ofDigitChars 10 s.toList 0 < 2 ^ 64) ∧
    (∀ i j : Ident, compare i j = .eq ↔ i = j) ∧
    (∀ i j : Ident, compare j i = (compare i j).swap) ∧
    (∀ i j k : Ident, (compare i j).isLE → (compare j k).isLE → (compare i k).isLE) ∧
    (∀ n s, compare (number n) (name s) = .lt) ∧
    (∀ m n, compare (number m) (number n) = .lt ↔ m.toNat < n.toNat) ∧
    (∀ s t, compare (name s) (name t) = .lt ↔ s.toUTF8.data.toList < t.toUTF8.data.toList) ∧
    ∀ seeds options r, Registry.ofCameras seeds options = .ok r → ∀ calls,
      ((r.run calls).entries.Pairwise fun a b => compare a.1 b.1 = .lt) ∧
      (∀ i c, (r.run calls).get? i = some c ↔
        c ∈ (r.run calls).toList ∧ compare i c.index = .eq) ∧
      ∀ s c, (r.run calls).get? (ofText s) = some c → c.index.toText = s := by
  refine ⟨toText_ofText, ofText_injective, fun s n => ofText_eq_number_iff,
    fun s => exists_ofText_eq_number_iff, fun i j => compare_eq_eq_iff_eq,
    fun i j => OrientedCmp.eq_swap, fun i j k => TransCmp.isLE_trans, fun n s => rfl,
    fun m n => compare_number_eq_lt, fun s t => compare_name_eq_lt, ?_⟩
  intro seeds options r hr calls
  have hholds := (Registry.holds_ofCameras hr).1.run calls
  exact ⟨hholds.ascending, fun i c => hholds.get?_eq_some_iff, fun s c => hholds.toText_of_get?⟩

/-- In the demo fleet the text of a number leads to the camera with the number, also after a
patch, and a name that comes behind all numbers leads to none. -/
theorem ofText_keys_demoFleet :
    ∃ r, Registry.ofCameras DemoFleet.cameras ⟨default, .clamp⟩ = .ok r ∧
      ((r.run [(.number 1, ⟨some (.number 3), some 64⟩)]).entries.Pairwise
        fun a b => compare a.1 b.1 = .lt) ∧
      ∀ s c, (r.run [(.number 1, ⟨some (.number 3), some 64⟩)]).get? (ofText s) = some c →
        c.index.toText = s := by
  obtain ⟨r, hr⟩ := Registry.exists_ofCameras_demoFleet ⟨default, .clamp⟩
  obtain ⟨-, -, -, -, -, -, -, -, -, -, hkeys⟩ := ofText_keys
  obtain ⟨hascending, -, htext⟩ := hkeys DemoFleet.cameras ⟨default, .clamp⟩ r hr
    [(.number 1, ⟨some (.number 3), some 64⟩)]
  exact ⟨r, hr, hascending, htext⟩

end Ident

end CameraFleet
