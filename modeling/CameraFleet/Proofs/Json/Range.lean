import CameraFleet.Proofs.Json.Literal
import CameraFleet.Proofs.Json.Places

/-!
# Literals with a double

Scaling the digits of a literal may overflow, and then the literal has no value. It does not up to
`largest` (`Literal.hasDouble_of_le`), which is closely below the greatest double; above that it
depends on the spelling.
-/

namespace CameraFleet.Json

open Binary64 (rankOf units unit ofInt ofRatio ofUnits)

/-- The greatest double. -/
def greatest : Nat := (2 ^ 53 - 1) * 2 ^ 971

example : units 0x7FEFFFFFFFFFFFFF = greatest * unit := by decide +kernel

/-- A number up to which no scaling overflows. -/
def largest : Nat := 17976931348623156 * 10 ^ 292

theorem largest_lt_pow {k : Nat} (h : 309 ≤ k) : largest < 10 ^ k := by
  have hpower : 10 ^ k = 10 ^ 17 * 10 ^ (k - 17) := by
    rw [← Nat.pow_add, Nat.add_sub_cancel' (by omega)]
  calc largest ≤ 17976931348623156 * 10 ^ (k - 17) := by
        unfold largest
        gcongr
        · decide
        · omega
    _ < 10 ^ 17 * 10 ^ (k - 17) :=
        Nat.mul_lt_mul_of_pos_right (by decide) (Nat.pow_pos (by decide))
    _ = 10 ^ k := hpower.symm

/-! ## Scaling -/

variable {v e : Nat}

theorem ofUnits_of_lt {n d : Nat} (negative : Bool) (h : rankOf n d < 0x7FF0000000000000) :
    ofUnits negative n d = .finite negative ⟨rankOf n d, h⟩ :=
  dif_pos h

/-- The product of two numbers is finite where that of larger ones is. -/
theorem isFinite_mul_ofInt {v' e' : Nat} (hv : v ≤ v') (he : e ≤ e')
    (hv' : rankOf (v' * unit) 1 < 0x7FF0000000000000)
    (he' : rankOf (e' * unit) 1 < 0x7FF0000000000000)
    (h : rankOf (units (rankOf (v' * unit) 1) * units (rankOf (e' * unit) 1)) unit <
      0x7FF0000000000000) : ((ofInt v).mul (ofInt e)).isFinite = true := by
  have hrank : ∀ {a b : Nat}, a ≤ b → rankOf (a * unit) 1 ≤ rankOf (b * unit) 1 :=
    fun hle => Binary64.rankOf_mono (Nat.mul_le_mul_right unit hle) 1
  have hint : ∀ a : Nat, ofInt a = ofUnits false (a * unit) 1 := fun a => by
    simp [ofInt, ofRatio, Int.not_lt.2 (Int.natCast_nonneg a)]
  have hunits := Nat.mul_le_mul (Binary64.units_mono (hrank hv)) (Binary64.units_mono (hrank he))
  have hproduct := (Binary64.rankOf_mono hunits unit).trans_lt h
  rw [hint, hint, ofUnits_of_lt false ((hrank hv).trans_lt hv'),
    ofUnits_of_lt false ((hrank he).trans_lt he'), Binary64.mul, ofUnits_of_lt _ hproduct]
  rfl

/-- The largest digits for each scale at which they have to be looked at. -/
theorem rankOf_largest : ∀ i < 21, (i = 0 → (2 ^ 64 - 1) * 10 ^ (288 + i) ≤ largest) ∧
    rankOf (10 ^ (288 + i) * unit) 1 < 0x7FF0000000000000 ∧
    rankOf (units (rankOf (min (2 ^ 64 - 1) (largest / 10 ^ (288 + i)) * unit) 1) *
      units (rankOf (10 ^ (288 + i) * unit) 1)) unit < 0x7FF0000000000000 := by
  decide +kernel

theorem isFinite_mul_tenTo (hv : v < 2 ^ 64) (he : e ≤ 308) (h : v * 10 ^ e ≤ largest) :
    ((ofInt v).mul (tenTo e)).isFinite = true := by
  obtain ⟨i, hi, hei, hlarge⟩ : ∃ i < 21, e ≤ 288 + i ∧ v * 10 ^ (288 + i) ≤ largest := by
    by_cases hsmall : e ≤ 288
    · have hlast : v ≤ 2 ^ 64 - 1 := by omega
      obtain ⟨i, hi⟩ : ∃ i, i = 0 := ⟨0, rfl⟩
      have hmax := (rankOf_largest i (by omega)).1 hi
      exact ⟨i, by omega, by omega, (Nat.mul_le_mul_right _ hlast).trans hmax⟩
    · exact ⟨e - 288, by omega, by omega, by rwa [Nat.add_sub_cancel' (by omega)]⟩
  obtain ⟨-, hten, hproduct⟩ := rankOf_largest i hi
  have hbound : v ≤ min (2 ^ 64 - 1) (largest / 10 ^ (288 + i)) :=
    le_min (by omega) ((Nat.le_div_iff_mul_le (Nat.pow_pos (by decide))).2 hlarge)
  have hword : rankOf ((2 ^ 64 - 1) * unit) 1 < 0x7FF0000000000000 := by decide +kernel
  have hmin := Binary64.rankOf_mono
    (Nat.mul_le_mul_right unit (min_le_left (2 ^ 64 - 1) (largest / 10 ^ (288 + i)))) 1
  rw [tenTo_eq he]
  exact isFinite_mul_ofInt hbound (Nat.pow_le_pow_right (by decide) hei) (hmin.trans_lt hword)
    hten hproduct

theorem real?_isSome (negative : Bool) (hv : v < 2 ^ 64) {e : Int}
    (h : 0 ≤ e → v * 10 ^ e.toNat ≤ largest) : (real? negative v e).isSome = true := by
  unfold real?
  simp only [Option.isSome_map]
  by_cases he : 0 ≤ e
  · rw [if_pos he, scaleUp?]
    by_cases hsteps : e.toNat ≤ 308
    · simp only [if_pos hsteps, isFinite_mul_tenTo hv hsteps (h he), if_true, Option.isSome_some]
    · obtain rfl : v = 0 := by
        by_contra hv0
        have hle := Nat.le_mul_of_pos_left (10 ^ e.toNat) (Nat.pos_of_ne_zero hv0)
        exact absurd (hle.trans (h he)) (Nat.not_le.2 (largest_lt_pow (by omega)))
      have hzero : (ofInt (0 : Nat)).isZero = true := by decide
      rw [if_neg hsteps, if_pos hzero, Option.isSome_some]
  · rw [if_neg he, Option.isSome_some]

/-! ## The digits that count -/

/-- The digits behind the point that count are the first ones. -/
theorem Digits.withFraction_bounds {d : Digits} (hd : d.value < 2 ^ 64) (cs : List Char) :
    (d.withFraction cs).value < 2 ^ 64 ∧ ∃ k ≤ cs.length, (d.withFraction cs).scale = d.scale - k ∧
      (k = 0 → (d.withFraction cs).value = d.value) ∧
      (d.withFraction cs).value * 10 ^ (cs.length - k) ≤ Nat.ofDigitChars 10 cs d.value := by
  induction cs generalizing d with
  | nil => exact ⟨hd, 0, le_rfl, by simp [withFraction], fun _ => rfl, by simp [withFraction]⟩
  | cons c cs ih =>
    rw [withFraction, Nat.ofDigitChars_cons]
    rcases hpush : push? d.value c with _ | next
    · refine ⟨hd, 0, Nat.zero_le _, by simp, fun _ => rfl, ?_⟩
      have hfirst : d.value * 10 ^ (cs.length + 1) = 10 ^ cs.length * (10 * d.value) := by
        rw [Nat.pow_succ]
        ac_rfl
      rw [Nat.ofDigitChars_eq_ofDigitChars_zero (l := cs), Nat.mul_add]
      simp only [List.length_cons, Nat.sub_zero, hfirst]
      omega
    · obtain ⟨rfl, hnext⟩ := push?_eq_some_iff.1 hpush
      obtain ⟨hvalue, k, hk, hscale, -, hbound⟩ :=
        ih (d := ⟨10 * d.value + (c.toNat - '0'.toNat), d.scale - 1⟩) hnext
      refine ⟨hvalue, k + 1, by simpa using hk, ?_, fun h => absurd h (Nat.succ_ne_zero _), ?_⟩
      · simp only at hscale ⊢
        rw [hscale]
        omega
      · simpa using hbound

namespace Literal

variable (n : Literal)

/-- The digits that count, at their scale, make no more than all digits do. -/
theorem digits_bounds : n.digits.value < 2 ^ 64 ∧ ∃ t : Nat,
    n.digits.scale + n.places.length = t ∧ n.digits.value * 10 ^ t ≤ n.mantissa := by
  obtain ⟨hwhole, s, hscale, hbelow, hexact, hlarge⟩ :=
    Digits.whole_bounds (v := 0) (by decide) n.whole
  obtain ⟨hvalue, k, hk, hscale', hnone, hbound⟩ := Digits.withFraction_bounds hwhole n.places
  have hall : 10 ^ n.places.length * Nat.ofDigitChars 10 n.whole 0 ≤ n.mantissa := by
    rw [mantissa, Nat.ofDigitChars_append, Nat.ofDigitChars_eq_ofDigitChars_zero (l := n.places)]
    exact Nat.le_add_right _ _
  unfold digits
  refine ⟨hvalue, s + n.places.length - k, by omega, ?_⟩
  by_cases hs : s = 0
  · rw [hs, Nat.zero_add, mantissa, Nat.ofDigitChars_append, ← hexact hs]
    exact hbound
  refine le_trans ?_ hall
  by_cases hk0 : k = 0
  · rw [hnone hk0, hk0, Nat.sub_zero, Nat.pow_add, Nat.mul_comm (10 ^ s), Nat.mul_left_comm]
    exact Nat.mul_le_mul_left _ hbelow
  · -- a digit behind the point may still fit, but then one before it did not
    have hpow : 10 ^ (s + n.places.length - k) ≤ 10 ^ n.places.length * 10 ^ (s - 1) := by
      rw [← Nat.pow_add]
      exact Nat.pow_le_pow_right (by decide) (by omega)
    calc _ ≤ 2 ^ 64 * (10 ^ n.places.length * 10 ^ (s - 1)) :=
          Nat.mul_le_mul (Nat.le_of_lt hvalue) hpow
      _ = 10 ^ n.places.length * (2 ^ 64 * 10 ^ (s - 1)) := Nat.mul_left_comm _ _ _
      _ ≤ _ := Nat.mul_le_mul_left _ (hlarge hs)

/-- The literal has a value: scaling its digits does not overflow. -/
def HasDouble : Prop :=
  ((number? n.text).bind Datum.number?).isSome

theorem hasDouble_iff : n.HasDouble ↔ n.datum.number?.isSome := by
  rw [HasDouble, number?_text, Option.bind_some]

theorem hasDouble_of_double? (h : n.double?.isSome) : n.HasDouble := by
  rw [hasDouble_iff]
  rcases n.datum_cases with ⟨m, hdatum, -⟩ | ⟨hdatum, -⟩
  · rw [hdatum]
    rfl
  · obtain ⟨x, hx⟩ := Option.isSome_iff_exists.1 h
    rw [hdatum, hx]
    rfl

theorem abs_value : |n.value| = n.mantissa * 10 ^ n.scale := by
  have hsign : |(if n.negative then -1 else 1 : ℚ)| = 1 := by
    cases n.negative <;> simp
  rw [value, abs_mul, abs_mul, hsign, one_mul, Nat.abs_cast, abs_of_pos (by positivity)]

/-- What the digits that count are scaled to is no larger than the number. -/
theorem digits_le (h : |n.value| ≤ largest) {e : Int}
    (he : e = n.digits.scale + n.exponent.elim 0 Exponent.value) (hpos : 0 ≤ e) :
    n.digits.value * 10 ^ e.toNat ≤ largest := by
  obtain ⟨-, t, ht, hbound⟩ := n.digits_bounds
  have hscale : (t : Int) + n.scale = e := by
    rw [scale]
    omega
  have hle : (n.digits.value * 10 ^ e.toNat : ℚ) ≤ largest :=
    calc (n.digits.value * 10 ^ e.toNat : ℚ) = n.digits.value * 10 ^ e := by
          rw [← zpow_natCast, Int.toNat_of_nonneg hpos]
      _ = (n.digits.value * 10 ^ t : ℕ) * 10 ^ n.scale := by
          rw [← hscale, zpow_add₀ (by decide), zpow_natCast, Nat.cast_mul, Nat.cast_pow,
            Nat.cast_ofNat, mul_assoc]
      _ ≤ n.mantissa * 10 ^ n.scale := by
          gcongr
      _ = |n.value| := n.abs_value.symm
      _ ≤ largest := h
  exact_mod_cast hle

/-- No exponent is too large to compute with in a number of moderate length. -/
theorem size_le (h : |n.value| ≤ largest) (hlength : n.places.length + 309 ≤ maxExponent)
    {x : Exponent} (hx : n.exponent = some x) (hup : x.down = false) (hvalue : n.digits.value ≠ 0) :
    x.size.value ≤ maxExponent := by
  obtain ⟨-, t, -, hbound⟩ := n.digits_bounds
  have hmantissa : 1 ≤ n.mantissa :=
    (Nat.mul_pos (Nat.pos_of_ne_zero hvalue) (Nat.pow_pos (by decide))).trans_le hbound
  refine Nat.le_of_not_lt fun hlarge => ?_
  have hscale : 309 ≤ n.scale := by
    simp only [scale, hx, Option.elim_some, Exponent.value, hup, Bool.false_eq_true, if_false]
    omega
  obtain ⟨k, hk⟩ := Int.eq_ofNat_of_zero_le (show 0 ≤ n.scale by omega)
  have hle : ((10 ^ k : ℕ) : ℚ) ≤ largest :=
    calc ((10 ^ k : ℕ) : ℚ) = 1 * 10 ^ n.scale := by
          rw [one_mul, hk, zpow_natCast, Nat.cast_pow, Nat.cast_ofNat]
      _ ≤ n.mantissa * 10 ^ n.scale := by
          gcongr
          exact_mod_cast hmantissa
      _ = |n.value| := n.abs_value.symm
      _ ≤ largest := h
  exact absurd (largest_lt_pow (k := k) (by omega)) (Nat.not_lt.2 (by exact_mod_cast hle))

/-- Up to `largest` a literal of moderate length has a value. -/
theorem hasDouble_of_le (h : |n.value| ≤ largest) (hlength : n.places.length + 309 ≤ maxExponent) :
    n.HasDouble := by
  obtain ⟨hvalue, -⟩ := n.digits_bounds
  refine n.hasDouble_of_double? ?_
  unfold double?
  rcases hx : n.exponent with _ | x
  · refine real?_isSome n.negative hvalue (n.digits_le h ?_)
    simp [hx]
  · have hscale : (if x.down then n.digits.scale - x.size.value else
        n.digits.scale + x.size.value) = n.digits.scale + x.value := by
      rw [Exponent.value]
      split_ifs <;> omega
    simp only [scaled?, hscale]
    split_ifs with hlarge hzero
    · have := n.size_le h hlength hx hzero.2 hzero.1
      omega
    · rfl
    · refine real?_isSome n.negative hvalue (n.digits_le h ?_)
      simp [hx]

end Literal

end CameraFleet.Json
