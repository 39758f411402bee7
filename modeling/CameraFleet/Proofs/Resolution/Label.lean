import Mathlib.Algebra.Order.Ring.Nat
import CameraFleet.Proofs.Number.Decimal
import CameraFleet.Proofs.Resolution.Scan

/-!
# The resolution that a label names

A label names the resolution of the last size found in it, and nothing stands behind that size
that spells one (`Found.exists_last`). It names none if no size is found, or if the last one is
not written in ASCII or has a side of zero (`ofWritten?_eq_none_iff`). A side is a numeral, so its
value has five digits at most and is a word (`word?_of_isNumeral`).
-/

namespace CameraFleet

namespace Natural

variable {ds : List Char} {n : Nat}

theorem ofDigitChars_lt : ∀ (ds : List Char) (v : Nat), (∀ c ∈ ds, c.isDigit = true) →
    Nat.ofDigitChars 10 ds v < (v + 1) * 10 ^ ds.length
  | [], v, _ => by simp
  | c :: ds, v, h => by
    obtain ⟨hc, hds⟩ := List.forall_mem_cons.1 h
    obtain ⟨d, hd, hdc, -⟩ := digitChar_of_isDigit hc
    have ih := ofDigitChars_lt ds (10 * v + d) hds
    have hle : (10 * v + d + 1) * 10 ^ ds.length ≤ (v + 1) * 10 * 10 ^ ds.length :=
      Nat.mul_le_mul_right _ (by omega)
    rw [Nat.ofDigitChars_cons, ← hdc, List.length_cons, Nat.pow_succ', ← Nat.mul_assoc]
    omega

theorem ofDigits?_eq_some_iff : ofDigits? ds = some n ↔
    ds ≠ [] ∧ (∀ c ∈ ds, c.isDigit = true) ∧ Nat.ofDigitChars 10 ds 0 = n := by
  unfold ofDigits?
  split_ifs with h
  · rw [List.all_eq_true] at h
    simp only [Option.some.injEq, h.1, ne_eq, not_false_eq_true, true_and]
    exact ⟨fun hn => ⟨h.2, hn⟩, fun hn => hn.2⟩
  · simp only [false_iff]
    rintro ⟨hne, hds, -⟩
    exact h ⟨hne, List.all_eq_true.2 hds⟩

theorem ofDigits?_lt (h : ofDigits? ds = some n) : n < 10 ^ ds.length := by
  obtain ⟨-, hds, rfl⟩ := ofDigits?_eq_some_iff.1 h
  simpa using ofDigitChars_lt ds 0 hds

end Natural

namespace Resolution

variable {cs ds rest : List Char} {w : Written} {ws : List Written} {r : Resolution} {n : Nat}

/-! ## The value of a size -/

theorem le_of_ofDigits? (hds : ds.length ≤ 5) (h : Natural.ofDigits? ds = some n) :
    n ≤ 99999 := by
  have hlt := Natural.ofDigits?_lt h
  have hpow : 10 ^ ds.length ≤ 10 ^ 5 := Nat.pow_le_pow_right (by decide) hds
  omega

/-- The digits of a numeral are read as a word as they are read without a bound. -/
theorem word?_of_isNumeral (h : IsNumeral ds) :
    Natural.word? UInt32.size ds = Natural.ofDigits? ds := by
  have hsign : ∀ rest, ds ≠ '+' :: rest := by
    rintro rest rfl
    have := h.digits '+' List.mem_cons_self
    exact absurd this (by decide +kernel)
  unfold Natural.word?
  split
  · exact absurd rfl (hsign _)
  · rcases hn : Natural.ofDigits? ds with _ | n
    · simp only [hn]
    · have hle := le_of_ofDigits? h.length_le hn
      have hlt : n < UInt32.size := by
        simp only [UInt32.size]
        omega
      simp only [hn, if_pos hlt]

/-- The digits denote a side: a number of one to five digits of ASCII, other than zero. -/
structure Denotes (ds : List Char) (n : Nat) : Prop where
  length_le : ds.length ≤ 5
  value : Natural.ofDigits? ds = some n
  bounds : 1 ≤ n ∧ n ≤ 99999

theorem IsNumeral.ofDigits?_eq_some_iff (h : IsNumeral ds) : Natural.ofDigits? ds = some n ↔
    ds.all Char.isDigit = true ∧ Nat.ofDigitChars 10 ds 0 = n := by
  rw [Natural.ofDigits?_eq_some_iff, List.all_eq_true]
  exact and_iff_right h.ne_nil

theorem IsNumeral.denotes_iff (h : IsNumeral ds) : Denotes ds n ↔
    Natural.ofDigits? ds = some n ∧ n ≠ 0 :=
  ⟨fun hn => ⟨hn.value, Nat.one_le_iff_ne_zero.1 hn.bounds.1⟩, fun hn =>
    ⟨h.length_le, hn.1, Nat.one_le_iff_ne_zero.2 hn.2, le_of_ofDigits? h.length_le hn.1⟩⟩

/-- A written size denotes a resolution if both of its sides denote one of its sides. -/
theorem ofWritten?_eq_some_iff (hwidth : IsNumeral w.width) (hheight : IsNumeral w.height) :
    ofWritten? w = some r ↔ Denotes w.width r.width.toNat ∧ Denotes w.height r.height.toNat := by
  have htoNat (ds : List Char) (h : IsNumeral ds) (hall : ds.all Char.isDigit = true) :
      (UInt32.ofNat (Nat.ofDigitChars 10 ds 0)).toNat = Nat.ofDigitChars 10 ds 0 := by
    have hle := le_of_ofDigits? h.length_le (h.ofDigits?_eq_some_iff.2 ⟨hall, rfl⟩)
    exact UInt32.toNat_ofNat_of_lt' (by simp only [UInt32.size]; omega)
  rw [hwidth.denotes_iff, hheight.denotes_iff, hwidth.ofDigits?_eq_some_iff,
    hheight.ofDigits?_eq_some_iff]
  unfold ofWritten?
  split_ifs with hall
  · simp only [hall, true_and]
    split_ifs with hzero
    · refine iff_of_false (by simp) fun ⟨⟨hw, hw'⟩, hh, hh'⟩ => ?_
      omega
    · rw [Option.some.injEq]
      constructor
      · rintro rfl
        rw [htoNat _ hwidth hall.1, htoNat _ hheight hall.2]
        exact ⟨⟨rfl, fun h => hzero (Or.inl h)⟩, rfl, fun h => hzero (Or.inr h)⟩
      · rintro ⟨⟨hw, -⟩, hh, -⟩
        rw [hw, hh, UInt32.ofNat_toNat, UInt32.ofNat_toNat]
  · exact iff_of_false (by simp) fun h => hall ⟨h.1.1.1, h.2.1.1⟩

/-- A written size denotes nothing if a digit is not of ASCII, or if a side is zero. -/
theorem ofWritten?_eq_none_iff (hwidth : IsNumeral w.width) (hheight : IsNumeral w.height) :
    ofWritten? w = none ↔ (∃ c ∈ w.width ++ w.height, c.isDigit = false) ∨
      Natural.ofDigits? w.width = some 0 ∨ Natural.ofDigits? w.height = some 0 := by
  have hall : (w.width.all Char.isDigit = true ∧ w.height.all Char.isDigit = true) ↔
      ¬ ∃ c ∈ w.width ++ w.height, c.isDigit = false := by
    simp only [List.all_eq_true, List.mem_append, not_exists, not_and, Bool.not_eq_false,
      or_imp, forall_and]
  unfold ofWritten?
  split_ifs with h
  · rw [hwidth.ofDigits?_eq_some_iff, hheight.ofDigits?_eq_some_iff, or_iff_right (hall.1 h)]
    simp only [h, true_and]
    split_ifs with hzero
    · exact iff_of_true rfl hzero
    · exact iff_of_false (by simp) hzero
  · exact iff_of_true rfl (Or.inl (not_not.1 fun hnot => h (hall.2 hnot)))

/-! ## The last size -/

theorem Spells.isNumeral {t : List Char} (h : Spells w t) :
    IsNumeral w.width ∧ IsNumeral w.height := by
  obtain ⟨hwidth, -, -, -, hheight⟩ := h
  exact ⟨hwidth, hheight⟩

theorem Found.isNumeral (h : Found cs ws rest) :
    ∀ w ∈ ws, IsNumeral w.width ∧ IsNumeral w.height := by
  induction h with
  | nil hnone => simp
  | cons hw hfirst hback ih => exact List.forall_mem_cons.2 ⟨hw.isNumeral, ih⟩

/-- Nothing behind the last size spells one. -/
theorem Found.hasNoSize (h : Found cs ws rest) : HasNoSize rest := by
  induction h with
  | nil hnone => exact hnone
  | cons hw hfirst hback ih => exact ih

theorem Found.exists_last (h : Found cs ws rest) (hw : ws.getLast? = some w) :
    ∃ front t, cs = front ++ t ++ rest ∧ Spells w t ∧ EndsBefore w.height rest := by
  induction h with
  | nil hnone => simp at hw
  | @cons front t back rest v ws hv hfirst hback ih =>
    rcases ws with _ | ⟨v', ws⟩
    · obtain rfl : v = w := by simpa using hw
      cases hback
      exact ⟨front, t, rfl, hv, hfirst.endsBefore hv⟩
    · rw [List.getLast?_cons_cons] at hw
      obtain ⟨front', t', rfl, ht', hends⟩ := ih hw
      exact ⟨front ++ t ++ front', t', by simp only [List.append_assoc], ht', hends⟩

theorem Found.eq_nil_iff (h : Found cs ws rest) : ws = [] ↔ HasNoSize cs := by
  constructor
  · rintro rfl
    cases h
    assumption
  · intro hnone
    rw [← h.eq_sizes]
    exact (Found.nil hnone).eq_sizes

theorem Found.ofLabel?_eq {label : String} (h : Found label.toList ws rest) :
    ofLabel? label = ws.getLast?.bind ofWritten? := by
  rw [ofLabel?, h.eq_sizes]

/-- A label names the resolution of the last size in it. Behind that size nothing spells one, and
its height does not go on, unless it has five digits. A label names none just if no size is in it
or the last one found from left to right has a digit that is not of ASCII or a side of zero. The
sides of all sizes found are words. -/
theorem ofLabel?_exact (label : String) :
    (∀ r, ofLabel? label = some r →
      ∃ front width left cross right height back,
        label.toList = front ++ (width ++ left ++ cross :: right ++ height) ++ back ∧
        Denotes width r.width.toNat ∧ (∀ c ∈ left, Text.isBlank c = true) ∧
        isCross cross = true ∧ (∀ c ∈ right, Text.isBlank c = true) ∧
        Denotes height r.height.toNat ∧
        (height.length = 5 ∨ ∀ c ∈ back.head?, Text.isDecimalDigit c = false) ∧
        HasNoSize back) ∧
    (ofLabel? label = none ↔
      HasNoSize label.toList ∨
      ∃ ws rest w, Found label.toList ws rest ∧ ws.getLast? = some w ∧
        ((∃ c ∈ w.width ++ w.height, c.isDigit = false) ∨
          Natural.ofDigits? w.width = some 0 ∨ Natural.ofDigits? w.height = some 0)) ∧
    ∀ ws rest, Found label.toList ws rest → ∀ w ∈ ws, ∀ side ∈ [w.width, w.height],
      Natural.word? UInt32.size side = Natural.ofDigits? side := by
  obtain ⟨rest, hfound⟩ := found_sizes label.toList
  refine ⟨fun r hr => ?_, ?_, fun ws rest h w hw side hside => ?_⟩
  · rw [hfound.ofLabel?_eq] at hr
    obtain ⟨w, hlast, hw⟩ := Option.bind_eq_some_iff.1 hr
    obtain ⟨front, t, hlabel, ht, hends⟩ := hfound.exists_last hlast
    obtain @⟨width, left, right, height, cross, hwidth, hleft, hcross, hright, hheight⟩ := ht
    obtain ⟨hwidth', hheight'⟩ := (ofWritten?_eq_some_iff hwidth hheight).1 hw
    exact ⟨front, width, left, cross, right, height, rest, hlabel, hwidth', hleft, hcross, hright,
      hheight', hends, hfound.hasNoSize⟩
  · rw [hfound.ofLabel?_eq, Option.bind_eq_none_iff, ← hfound.eq_nil_iff]
    rcases hlast : (sizes label.toList).getLast? with _ | w
    · exact iff_of_true (by simp) (Or.inl (List.getLast?_eq_none_iff.1 hlast))
    · have hne : sizes label.toList ≠ [] := fun hnil => by simp [hnil] at hlast
      obtain ⟨hwidth, hheight⟩ := hfound.isNumeral w (List.mem_of_getLast? hlast)
      simp only [Option.some.injEq, forall_eq', ofWritten?_eq_none_iff hwidth hheight,
        or_iff_right hne]
      constructor
      · intro hnone
        exact ⟨_, rest, w, hfound, hlast, hnone⟩
      · rintro ⟨ws, rest', w', hfound', hlast', hnone⟩
        rw [← hfound'.eq_sizes, hlast, Option.some.injEq] at hlast'
        rwa [hlast']
  · obtain ⟨hwidth, hheight⟩ := h.isNumeral w hw
    simp only [List.mem_cons, List.not_mem_nil, or_false] at hside
    rcases hside with rfl | rfl
    · exact word?_of_isNumeral hwidth
    · exact word?_of_isNumeral hheight

/-- The last size counts also where it is of no use, as in digits of another script. -/
example : ofLabel? "320x240 ٦٤٠x٤٨٠" = none := by decide +kernel

end Resolution

end CameraFleet
