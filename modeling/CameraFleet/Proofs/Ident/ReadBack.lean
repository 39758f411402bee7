import Mathlib
import CameraFleet.Proofs.Ident.Canonical
import CameraFleet.Proofs.Number.Shortest

/-!
# Identifiers that documents give

A document gives an identifier by an integer, a double or a text. Each is canonical but one: a
double that is a whole number beyond the exact range and below `2 ^ 64` is named by digits that
stand for a number (`isCanonical_ofReal_iff`, `readBack_iff`).
-/

namespace CameraFleet.Ident

theorem isCanonical_name_of_mem {s : String} {c : Char} (hc : c ∈ s.toList)
    (hdigit : c.isDigit = false) : (name s).IsCanonical := by
  have hno : ¬ Natural.isCanonical s.toList = true := by
    intro h
    rw [Natural.isCanonical_iff] at h
    rw [h] at hc
    rw [Natural.isDigit_of_mem_digits hc] at hdigit
    exact absurd hdigit (by decide)
  unfold IsCanonical toText ofText
  rw [if_neg hno]

theorem isCanonical_name_digits_iff {v : Nat} :
    (name (String.ofList (Natural.digits v))).IsCanonical ↔ 2 ^ 64 ≤ v := by
  unfold IsCanonical toText ofText
  rw [String.toList_ofList, if_pos (Natural.isCanonical_digits v)]
  simp only [Natural.ofDigitChars_digits]
  have hsize : UInt64.size = 2 ^ 64 := rfl
  split_ifs with hv
  · simp only [false_iff]
    omega
  · simp only [true_iff]
    omega

open Binary64 (units unit shortest)

theorem toNat?_eq_some_iff {negative : Bool} {r : Fin 0x7FF0000000000000} {n : Nat}
    (hr : r.val ≠ 0) : (Binary64.finite negative r).toNat? = some n ↔
      negative = false ∧ units r = n * unit := by
  have hunit := Binary64.unit_pos
  unfold Binary64.toNat?
  simp only [hr, or_false]
  constructor
  · intro h
    split_ifs at h with hwhole
    refine ⟨hwhole.2, ?_⟩
    rw [← Option.some.inj h, Nat.div_mul_cancel (Nat.dvd_of_mod_eq_zero hwhole.1)]
  · rintro ⟨hneg, hunits⟩
    rw [hunits, if_pos ⟨Nat.mul_mod_left n unit, hneg⟩, Nat.mul_div_left n hunit]

/-- The least double of more than 64 bits is written with more than 64 bits. -/
theorem shortest_two_pow_64 {r : Fin 0x7FF0000000000000} (h : units r = 2 ^ 64 * unit) :
    (shortest false r).positional [] = Natural.digits 18446744073709552000 := by
  have hrank : r.val = 1087 * 2 ^ 52 := by
    rw [← Binary64.rankOf_units r, h]
    decide +kernel
  obtain rfl : r = ⟨1087 * 2 ^ 52, by decide⟩ := Fin.ext hrank
  decide +kernel

theorem toNat?_of_zero {negative : Bool} {r : Fin 0x7FF0000000000000} (hr : r.val = 0) :
    (Binary64.finite negative r).toNat? = some 0 := by
  have hunits : units 0 = 0 := Binary64.units_of_lt (Nat.two_pow_pos 53)
  unfold Binary64.toNat?
  simp only [hr, hunits, Nat.zero_mod, or_true, and_self, if_true, Nat.zero_div]

/-- The text of a positive double is a canonical name where it is not that of a number of 64
bits. -/
theorem isCanonical_name_positional_iff {r : Fin 0x7FF0000000000000} (hr : r.val ≠ 0) :
    (name (String.ofList ((shortest false r).positional []))).IsCanonical ↔
      ¬ ∃ n, units r = n * unit ∧ n < 2 ^ 64 := by
  have hunit := Binary64.unit_pos
  rcases Binary64.positional_cases false hr with hdot | ⟨v, hv, hrank⟩
  · refine iff_of_true (isCanonical_name_of_mem (by rwa [String.toList_ofList]) rfl) ?_
    rintro ⟨n, hn, hlt⟩
    have hpos : 0 < n := Nat.pos_of_mul_pos_right (hn ▸ Binary64.units_pos hr)
    obtain ⟨v, hv⟩ := Binary64.shortest_whole false hr hpos hlt hn
    rw [hv, Binary64.positional_of] at hdot
    exact absurd (Natural.isDigit_of_mem_digits hdot) (by decide)
  · obtain ⟨⟨n, hn⟩, hlow, hhigh⟩ := Binary64.whole_of_rankOf hrank 64
    rw [Nat.mul_comm] at hn
    rw [hv, isCanonical_name_digits_iff]
    constructor
    · rintro hlarge ⟨m, hm, hlt⟩
      have hle := hlow hlarge
      rw [hm] at hle
      exact absurd (Nat.le_of_mul_le_mul_right hle hunit) (Nat.not_le.2 hlt)
    · intro hno
      by_contra hsmall
      have hle := hhigh (Nat.not_le.1 hsmall)
      rw [hn] at hle
      have hn64 : n ≤ 2 ^ 64 := Nat.le_of_mul_le_mul_right hle hunit
      rcases Nat.lt_or_eq_of_le hn64 with hlt | rfl
      · exact hno ⟨n, hn, hlt⟩
      · -- rounding reaches the bound from below, but its shortest text lies above it
        rw [shortest_two_pow_64 hn] at hv
        have := Natural.digits_injective hv
        omega

theorem isCanonical_name_plain_iff {x : Binary64} (hzero : x.toNat? ≠ some 0) :
    (name x.plain).IsCanonical ↔ ¬ ∃ n, x.toNat? = some n ∧ n < 2 ^ 64 := by
  cases x with
  | nan => exact iff_of_true (by decide) (by simp [Binary64.toNat?])
  | infinity negative =>
    refine iff_of_true ?_ (by simp [Binary64.toNat?])
    cases negative <;> decide
  | finite negative r =>
    have hr : r.val ≠ 0 := fun hr => hzero (toNat?_of_zero hr)
    simp only [toNat?_eq_some_iff hr, Binary64.plain, if_neg hr]
    cases negative with
    | true =>
      refine iff_of_true (isCanonical_name_of_mem (c := '-') ?_ rfl) ?_
      · rw [String.toList_ofList]
        exact List.mem_cons_self
      · rintro ⟨n, ⟨hneg, -⟩, -⟩
        exact Bool.noConfusion hneg
    | false =>
      simp only [true_and, Binary64.signed, Bool.false_eq_true, if_false]
      exact isCanonical_name_positional_iff hr

/-- The identifier of a double is canonical, unless the double is a whole number beyond the exact
range and below `2 ^ 64`. -/
theorem isCanonical_ofReal_iff (x : Binary64) : (ofReal x).IsCanonical ↔
    ¬ ∃ n, x.toNat? = some n ∧ 2 ^ 53 < n ∧ n < 2 ^ 64 := by
  unfold ofReal maxExactWhole
  rcases hx : x.toNat? with _ | n
  · simp only
    rw [isCanonical_name_plain_iff (by simp [hx])]
    simp [hx]
  · simp only
    split_ifs with hn
    · refine iff_of_true (isCanonical_number _) ?_
      rintro ⟨m, hm, hlow, -⟩
      have := Option.some.inj hm
      omega
    · rw [isCanonical_name_plain_iff (by rw [hx]; simp; omega)]
      simp only [hx, Option.some.injEq, exists_eq_left', not_and]
      omega

/-- The identifier that a document gives is canonical, unless it comes from a double that is a
whole number beyond the exact range and below `2 ^ 64`. -/
theorem isCanonical_ofDatum?_iff {d : Datum} {i : Ident} (h : ofDatum? d = some i) :
    i.IsCanonical ↔ ¬ ∃ x n, d = .real x ∧ x.toNat? = some n ∧ 2 ^ 53 < n ∧ n < 2 ^ 64 := by
  unfold ofDatum? at h
  split at h
  · refine iff_of_true ?_ (by simp)
    split_ifs at h with hneg hlarge
    · obtain rfl := Option.some.inj h
      exact isCanonical_number _
    · obtain rfl := Option.some.inj h
      refine isCanonical_name_of_mem (c := '-') ?_ rfl
      rw [Natural.intText, String.toList_ofList, if_pos (by omega)]
      exact List.mem_cons_self
  · obtain rfl := Option.some.inj h
    rw [isCanonical_ofReal_iff]
    simp only [Datum.real.injEq, exists_and_left, exists_eq_left']
  · obtain rfl := Option.some.inj h
    exact iff_of_true (isCanonical_ofText _) (by simp)
  · exact absurd h (by simp)

theorem readBack_document_iff {i : Ident} :
    (Json.parse? (Json.render i.toDatum)).bind ofDatum? = some i ↔ i.IsCanonical := by
  rw [Json.parse?_render i.written_toDatum, Option.bind_some]
  exact ofDatum?_toDatum_iff

/-- An identifier that a text names is what its own text names, and is read back from a document.
So is one that a document gives, unless it comes from a double that is a whole number beyond the
exact range and below `2 ^ 64`. -/
theorem readBack_iff (t : String) {d : Datum} {i : Ident} (h : ofDatum? d = some i) :
    (ofText (ofText t).toText = ofText t ∧
      (Json.parse? (Json.render (ofText t).toDatum)).bind ofDatum? = some (ofText t)) ∧
    (ofText i.toText = i ↔
      ¬ ∃ x n, d = .real x ∧ x.toNat? = some n ∧ 2 ^ 53 < n ∧ n < 2 ^ 64) ∧
    ((Json.parse? (Json.render i.toDatum)).bind ofDatum? = some i ↔
      ¬ ∃ x n, d = .real x ∧ x.toNat? = some n ∧ 2 ^ 53 < n ∧ n < 2 ^ 64) := by
  have htext := isCanonical_ofText t
  have hdocument := isCanonical_ofDatum?_iff h
  rw [readBack_document_iff, readBack_document_iff]
  exact ⟨⟨htext, htext⟩, hdocument, hdocument⟩

/-- The double `2 ^ 64` is named by digits that stand for no number of 64 bits. -/
theorem readBack_two_pow_64 :
    ofDatum? (.real (.ofInt (2 ^ 64))) = some (name "18446744073709552000") ∧
      ofText (name "18446744073709552000").toText = name "18446744073709552000" := by
  have hread : ofDatum? (.real (.ofInt (2 ^ 64))) = some (name "18446744073709552000") := by
    decide +kernel
  have hwhole : (Binary64.ofInt (2 ^ 64)).toNat? = some (2 ^ 64) := by decide +kernel
  refine ⟨hread, ((readBack_iff "042" hread).2.1).2 ?_⟩
  rintro ⟨x, n, hx, hn, -, hlt⟩
  rw [← Datum.real.inj hx, hwhole] at hn
  exact absurd hlt (by rw [← Option.some.inj hn]; exact Nat.lt_irrefl _)

/-- The first whole double beyond the exact range is named by the text of a number. -/
theorem not_readBack_first_beyond :
    (Json.parse? "9007199254740994.0").bind ofDatum? = some (name "9007199254740994") ∧
      ofText (name "9007199254740994").toText = number 9007199254740994 ∧
      (Json.parse? (Json.render (name "9007199254740994").toDatum)).bind ofDatum? =
        some (number 9007199254740994) := by
  decide +kernel

end CameraFleet.Ident
