import CameraFleet.Ident
import CameraFleet.Proofs.Json.RoundTrip

/-!
# Canonical identifiers

An identifier is canonical if it is what its own text names. Numbers and the identifiers that
texts name are so (`isCanonical_number`, `isCanonical_ofText`), and nothing else is
(`isCanonical_iff_built`). Canonical identifiers are read back from documents.
-/

namespace CameraFleet.Ident

/-- The identifier is what its own text names. -/
def IsCanonical (i : Ident) : Prop :=
  ofText i.toText = i

instance (i : Ident) : Decidable i.IsCanonical :=
  inferInstanceAs (Decidable (_ = _))

theorem isCanonical_number (n : UInt64) : (number n).IsCanonical := by
  unfold IsCanonical toText ofText Natural.toText
  rw [String.toList_ofList, if_pos (Natural.isCanonical_digits _)]
  simp only [Natural.ofDigitChars_digits]
  rw [if_pos n.toNat_lt_size, UInt64.ofNat_toNat]

/-- A text names itself, unless it is the canonical text of a number of 64 bits. -/
theorem ofText_cases (s : String) : ofText s = name s ∨
    ∃ n : UInt64, ofText s = number n ∧ s = Natural.toText n.toNat := by
  unfold ofText
  split_ifs with hcanonical
  · simp only
    split_ifs with hn
    · refine Or.inr ⟨_, rfl, ?_⟩
      rw [UInt64.toNat_ofNat_of_lt' hn, Natural.toText, Natural.digits_of_isCanonical hcanonical,
        String.ofList_toList]
    · exact Or.inl rfl
  · exact Or.inl rfl

@[simp] theorem toText_ofText (s : String) : (ofText s).toText = s := by
  rcases ofText_cases s with h | ⟨n, h, hs⟩
  · rw [h]
    rfl
  · rw [h]
    exact hs.symm

theorem isCanonical_ofText (s : String) : (ofText s).IsCanonical := by
  rcases ofText_cases s with h | ⟨n, h, -⟩
  · rw [h]
    exact h
  · rw [h]
    exact isCanonical_number n

theorem isCanonical_iff_built {i : Ident} :
    i.IsCanonical ↔ (∃ n, i = number n) ∨ ∃ s, i = ofText s := by
  constructor
  · intro h
    exact Or.inr ⟨_, h.symm⟩
  · rintro (⟨n, rfl⟩ | ⟨s, rfl⟩)
    · exact isCanonical_number n
    · exact isCanonical_ofText s

theorem written_toDatum (i : Ident) : Json.Written i.toDatum := by
  cases i with
  | number n =>
    have := n.toNat_lt
    exact .integer (by omega) (by omega)
  | name s => exact .text s

theorem fits_toDatum (room : Nat) (i : Ident) : Json.Fits room i.toDatum :=
  ⟨i.written_toDatum, by cases i <;> cases room <;> rfl⟩

/-- An identifier is read from a document as what its text names. -/
theorem ofDatum?_toDatum (i : Ident) : ofDatum? i.toDatum = some (ofText i.toText) := by
  cases i with
  | number n =>
    have := n.toNat_lt_size
    rw [isCanonical_number n, toDatum, ofDatum?, if_pos (by omega), if_pos (by omega),
      Int.toNat_natCast, UInt64.ofNat_toNat]
  | name s => rfl

theorem ofDatum?_toDatum_iff {i : Ident} : ofDatum? i.toDatum = some i ↔ i.IsCanonical := by
  rw [ofDatum?_toDatum, Option.some.injEq, IsCanonical]

end CameraFleet.Ident
