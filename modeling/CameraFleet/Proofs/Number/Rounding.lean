import Mathlib
import CameraFleet.Number.Binary64

/-!
# Rounding to double precision

Every magnitude is nearest to itself (`rankOf_units`), rounding does not cross a power of two
(`le_units_rankOf`, `units_rankOf_le`), and it keeps a multiple of a power of two one
(`dvd_units_rankOf`). So what is nearest to a natural number is a natural number. A larger number
is never rounded to a smaller rank (`rankOf_le_rankOf`).
-/

namespace CameraFleet.Binary64

/-! ## Rounding a quotient -/

theorem roundDiv_bounds (n d : Nat) : n / d ≤ roundDiv n d ∧ roundDiv n d ≤ n / d + 1 := by
  unfold roundDiv
  simp only
  split_ifs <;> omega

theorem roundDiv_mul (q : Nat) {d : Nat} (hd : 0 < d) : roundDiv (q * d) d = q := by
  unfold roundDiv
  simp only [Nat.mul_mod_left, Nat.mul_div_left q hd]
  rw [if_pos (by omega)]

theorem roundDiv_mul_right (n d : Nat) {k : Nat} (hk : 0 < k) :
    roundDiv (n * k) (d * k) = roundDiv n d := by
  unfold roundDiv
  simp only [Nat.mul_div_mul_right _ _ hk, Nat.mul_mod_mul_right, ← Nat.mul_assoc,
    Nat.mul_lt_mul_right hk]

theorem roundDiv_mono {n n' : Nat} (h : n ≤ n') (d : Nat) : roundDiv n d ≤ roundDiv n' d := by
  have hq : n / d ≤ n' / d := Nat.div_le_div_right h
  obtain ⟨-, habove⟩ := roundDiv_bounds n d
  obtain ⟨hbelow, -⟩ := roundDiv_bounds n' d
  rcases Nat.lt_or_eq_of_le hq with hq | hq
  · omega
  · have hn := Nat.div_add_mod n d
    have hn' := Nat.div_add_mod n' d
    rw [hq] at hn
    unfold roundDiv
    simp only [hq]
    split_ifs <;> omega

theorem rankOf_mul_right (n d : Nat) {k : Nat} (hk : 0 < k) :
    rankOf (n * k) (d * k) = rankOf n d := by
  unfold rankOf
  simp only [Nat.mul_div_mul_right _ _ hk, Nat.shiftLeft_eq, Nat.mul_right_comm d k,
    roundDiv_mul_right _ _ hk]

theorem rankOf_mul_self (n : Nat) {k : Nat} (hk : 0 < k) : rankOf (n * k) k = rankOf n 1 := by
  have hscale := rankOf_mul_right n 1 hk
  rwa [Nat.one_mul] at hscale

/-! ## Magnitudes -/

theorem units_of_lt {r : Nat} (h : r < 2 ^ 53) : units r = r := by
  unfold units significand exponent
  split_ifs with hr
  · rw [Nat.div_eq_of_lt hr, Nat.shiftLeft_zero]
  · have hdiv : r / 0x10000000000000 = 1 := by omega
    rw [hdiv, Nat.shiftLeft_zero]
    omega

/-- The rank of a significand and an exponent; the significand may be just too large. -/
theorem units_add {q e : Nat} (hlow : 2 ^ 52 ≤ q) (hhigh : q ≤ 2 ^ 53) :
    units (q + e * 2 ^ 52) = q * 2 ^ e := by
  unfold units significand exponent
  rw [if_neg (by omega), Nat.shiftLeft_eq]
  rcases Nat.lt_or_ge q (2 ^ 53) with hq | hq
  · have hmod : (q + e * 2 ^ 52) % 0x10000000000000 = q - 2 ^ 52 := by omega
    have hdiv : (q + e * 2 ^ 52) / 0x10000000000000 - 1 = e := by omega
    have hsum : 0x10000000000000 + (q - 2 ^ 52) = q := by omega
    rw [hmod, hdiv, hsum]
  · have hmod : (q + e * 2 ^ 52) % 0x10000000000000 = 0 := by omega
    have hdiv : (q + e * 2 ^ 52) / 0x10000000000000 - 1 = e + 1 := by omega
    obtain rfl : q = 2 ^ 53 := Nat.le_antisymm hhigh hq
    rw [hmod, hdiv, Nat.pow_succ]
    omega

theorem rankOf_of_lt {n : Nat} (h : n < 2 ^ 53) : rankOf n 1 = n := by
  unfold rankOf
  have hexact : n < 0x20000000000000 := h
  simp only [Nat.div_one, if_pos hexact, Nat.shiftLeft_zero]
  have hround := roundDiv_mul n Nat.one_pos
  rw [Nat.mul_one] at hround
  rw [hround]
  omega

/-- The exponent that a quotient is rounded with. -/
theorem rankOf_eq (n d : Nat) : ∃ e, rankOf n d = roundDiv n (d * 2 ^ e) + e * 2 ^ 52 ∧
    n / d < 2 ^ (e + 53) ∧ (e = 0 ∨ 2 ^ (e + 52) ≤ n / d) := by
  unfold rankOf
  simp only [Nat.shiftLeft_eq]
  split_ifs with hsmall
  · exact ⟨0, rfl, hsmall, Or.inl rfl⟩
  · have hlog : 53 ≤ Nat.log2 (n / d) := (Nat.le_log2 (by omega)).2 (by omega)
    refine ⟨Nat.log2 (n / d) - 52, rfl, ?_, Or.inr ?_⟩
    · rw [show Nat.log2 (n / d) - 52 + 53 = Nat.log2 (n / d) + 1 by omega]
      exact Nat.lt_log2_self
    · rw [Nat.sub_add_cancel (by omega)]
      exact Nat.log2_self_le (by omega)

/-- The rounded significand is below `2 ^ 53`, and from `2 ^ 52` on where the exponent is not the
least one. -/
theorem roundDiv_of_exponent {n d e : Nat} (hhigh : n / d < 2 ^ (e + 53)) :
    roundDiv n (d * 2 ^ e) ≤ 2 ^ 53 ∧
      (2 ^ (e + 52) ≤ n / d → 2 ^ 52 ≤ roundDiv n (d * 2 ^ e)) := by
  obtain ⟨hbelow, habove⟩ := roundDiv_bounds n (d * 2 ^ e)
  have hpos := Nat.two_pow_pos e
  rw [← Nat.div_div_eq_div_mul] at hbelow habove
  have hq : n / d / 2 ^ e < 2 ^ 53 := by
    rw [Nat.div_lt_iff_lt_mul hpos, ← Nat.pow_add, Nat.add_comm]
    exact hhigh
  refine ⟨by omega, fun hlow => ?_⟩
  have hq' : 2 ^ 52 ≤ n / d / 2 ^ e := by
    rw [Nat.le_div_iff_mul_le hpos, ← Nat.pow_add, Nat.add_comm]
    exact hlow
  omega

/-- The exponent with which a number of units is rounded that is no magnitude by itself. -/
theorem exists_rankOf {n : Nat} (h : 2 ^ 53 ≤ n) : ∃ e, 2 ^ (e + 52) ≤ n ∧ n < 2 ^ (e + 53) ∧
    rankOf n 1 = roundDiv n (2 ^ e) + e * 2 ^ 52 := by
  obtain ⟨e, hrank, hhigh, hlow⟩ := rankOf_eq n 1
  rw [Nat.div_one] at hhigh hlow
  rw [Nat.one_mul] at hrank
  rcases hlow with rfl | hlow
  · exact absurd h (Nat.not_le.2 hhigh)
  · exact ⟨e, hlow, hhigh, hrank⟩

theorem units_rankOf {n e : Nat} (hlow : 2 ^ (e + 52) ≤ n) (hhigh : n < 2 ^ (e + 53))
    (hrank : rankOf n 1 = roundDiv n (2 ^ e) + e * 2 ^ 52) :
    2 ^ 52 ≤ roundDiv n (2 ^ e) ∧ roundDiv n (2 ^ e) ≤ 2 ^ 53 ∧
      units (rankOf n 1) = roundDiv n (2 ^ e) * 2 ^ e := by
  rw [← Nat.div_one n] at hlow hhigh
  obtain ⟨habove, hbelow⟩ := roundDiv_of_exponent hhigh
  rw [Nat.one_mul] at habove hbelow
  refine ⟨hbelow hlow, habove, ?_⟩
  rw [hrank]
  exact units_add (hbelow hlow) habove

/-- A multiple of a power of two by less than `2 ^ 53` is a magnitude. -/
theorem units_rankOf_mul_pow {v : Nat} (h : v < 2 ^ 53) (k : Nat) :
    units (rankOf (v * 2 ^ k) 1) = v * 2 ^ k := by
  rcases Nat.lt_or_ge (v * 2 ^ k) (2 ^ 53) with hn | hn
  · rw [rankOf_of_lt hn, units_of_lt hn]
  · obtain ⟨e, hlow, hhigh, hrank⟩ := exists_rankOf hn
    obtain ⟨-, -, hunits⟩ := units_rankOf hlow hhigh hrank
    have habove : v * 2 ^ k < 2 ^ (53 + k) := by
      rw [Nat.pow_add]
      exact Nat.mul_lt_mul_of_pos_right h (Nat.two_pow_pos k)
    have he := (Nat.pow_lt_pow_iff_right (by decide)).1 (Nat.lt_of_le_of_lt hlow habove)
    obtain ⟨j, rfl⟩ := Nat.exists_eq_add_of_le (show e ≤ k by omega)
    rw [hunits, Nat.pow_add, Nat.mul_comm (2 ^ e), ← Nat.mul_assoc,
      roundDiv_mul _ (Nat.two_pow_pos e)]

theorem rankOf_units (r : Nat) : rankOf (units r) 1 = r := by
  rcases Nat.lt_or_ge r (2 ^ 53) with hr | hr
  · rw [units_of_lt hr, rankOf_of_lt hr]
  · obtain ⟨q, k, hlow, hhigh, rfl⟩ : ∃ q k, 2 ^ 52 ≤ q ∧ q < 2 ^ 53 ∧ r = q + k * 2 ^ 52 :=
      ⟨2 ^ 52 + r % 2 ^ 52, r / 2 ^ 52 - 1, by omega, by omega, by omega⟩
    have hbelow : 2 ^ (52 + k) ≤ q * 2 ^ k := by
      rw [Nat.pow_add]
      exact Nat.mul_le_mul_right _ hlow
    have habove : q * 2 ^ k < 2 ^ (53 + k) := by
      rw [Nat.pow_add]
      exact Nat.mul_lt_mul_of_pos_right hhigh (Nat.two_pow_pos k)
    rw [units_add hlow (Nat.le_of_lt hhigh)]
    rcases Nat.lt_or_ge (q * 2 ^ k) (2 ^ 53) with hn | hn
    · have hk := (Nat.pow_lt_pow_iff_right (by decide)).1 (Nat.lt_of_le_of_lt hbelow hn)
      obtain rfl : k = 0 := by omega
      rw [rankOf_of_lt hn, Nat.pow_zero]
      omega
    · obtain ⟨e, he, he', hrank⟩ := exists_rankOf hn
      have h1 := (Nat.pow_lt_pow_iff_right (by decide)).1 (Nat.lt_of_le_of_lt hbelow he')
      have h2 := (Nat.pow_lt_pow_iff_right (by decide)).1 (Nat.lt_of_le_of_lt he habove)
      obtain rfl : e = k := by omega
      rw [hrank, roundDiv_mul q (Nat.two_pow_pos e)]

theorem units_pos {r : Nat} (hr : r ≠ 0) : 0 < units r := by
  refine Nat.pos_of_ne_zero fun h => hr ?_
  rw [← rankOf_units r, h]
  exact rankOf_of_lt (Nat.two_pow_pos 53)

theorem le_units_rankOf {n k : Nat} (h : 2 ^ k ≤ n) : 2 ^ k ≤ units (rankOf n 1) := by
  rcases Nat.lt_or_ge n (2 ^ 53) with hn | hn
  · rw [rankOf_of_lt hn, units_of_lt hn]
    exact h
  · obtain ⟨e, hlow, hhigh, hrank⟩ := exists_rankOf hn
    obtain ⟨hq, -, hunits⟩ := units_rankOf hlow hhigh hrank
    have hk : k < e + 53 := (Nat.pow_lt_pow_iff_right (by decide)).1 (Nat.lt_of_le_of_lt h hhigh)
    calc 2 ^ k ≤ 2 ^ (52 + e) := Nat.pow_le_pow_right (by decide) (by omega)
      _ = 2 ^ 52 * 2 ^ e := Nat.pow_add _ _ _
      _ ≤ roundDiv n (2 ^ e) * 2 ^ e := Nat.mul_le_mul_right _ hq
      _ = units (rankOf n 1) := hunits.symm

theorem units_rankOf_le {n k : Nat} (h : n < 2 ^ k) : units (rankOf n 1) ≤ 2 ^ k := by
  rcases Nat.lt_or_ge n (2 ^ 53) with hn | hn
  · rw [rankOf_of_lt hn, units_of_lt hn]
    exact Nat.le_of_lt h
  · obtain ⟨e, hlow, hhigh, hrank⟩ := exists_rankOf hn
    obtain ⟨-, hq, hunits⟩ := units_rankOf hlow hhigh hrank
    have hk : e + 52 < k := (Nat.pow_lt_pow_iff_right (by decide)).1 (Nat.lt_of_le_of_lt hlow h)
    calc units (rankOf n 1) = roundDiv n (2 ^ e) * 2 ^ e := hunits
      _ ≤ 2 ^ 53 * 2 ^ e := Nat.mul_le_mul_right _ hq
      _ = 2 ^ (53 + e) := (Nat.pow_add _ _ _).symm
      _ ≤ 2 ^ k := Nat.pow_le_pow_right (by decide) (by omega)

theorem dvd_units_rankOf {n k : Nat} (h : 2 ^ k ∣ n) : 2 ^ k ∣ units (rankOf n 1) := by
  rcases Nat.lt_or_ge n (2 ^ 53) with hn | hn
  · rw [rankOf_of_lt hn, units_of_lt hn]
    exact h
  · obtain ⟨e, hlow, hhigh, hrank⟩ := exists_rankOf hn
    obtain ⟨-, -, hunits⟩ := units_rankOf hlow hhigh hrank
    rw [hunits]
    rcases Nat.le_total k e with hk | hk
    · exact Nat.dvd_mul_left_of_dvd (Nat.pow_dvd_pow 2 hk) _
    · obtain ⟨q, rfl⟩ := Nat.dvd_trans (Nat.pow_dvd_pow 2 hk) h
      rw [Nat.mul_comm (2 ^ e) q] at h ⊢
      rwa [roundDiv_mul q (Nat.two_pow_pos e)]

/-! ## Monotonicity -/

/-- A larger number is never rounded to a smaller rank. -/
theorem rankOf_mono {n n' : Nat} (h : n ≤ n') (d : Nat) : rankOf n d ≤ rankOf n' d := by
  obtain ⟨e, he, hhigh, hlow⟩ := rankOf_eq n d
  obtain ⟨e', he', hhigh', hlow'⟩ := rankOf_eq n' d
  have hq : n / d ≤ n' / d := Nat.div_le_div_right h
  rw [he, he']
  rcases Nat.lt_trichotomy e e' with hlt | rfl | hgt
  · have h1 := (roundDiv_of_exponent hhigh).1
    have h2 := (roundDiv_of_exponent hhigh').2 (hlow'.resolve_left (by omega))
    omega
  · exact Nat.add_le_add_right (roundDiv_mono h _) _
  · -- the smaller number cannot have the larger exponent
    have hpow := Nat.lt_of_le_of_lt ((hlow.resolve_left (by omega)).trans hq) hhigh'
    have := (Nat.pow_lt_pow_iff_right (by decide)).1 hpow
    omega

theorem rankOf_le_rankOf {n d n' d' : Nat} (hd : 0 < d) (hd' : 0 < d') (h : n * d' ≤ n' * d) :
    rankOf n d ≤ rankOf n' d' := by
  rw [← rankOf_mul_right n d hd', ← rankOf_mul_right n' d' hd, Nat.mul_comm d' d]
  exact rankOf_mono h _

theorem units_mono {r r' : Nat} (h : r ≤ r') : units r ≤ units r' := by
  refine Nat.le_of_not_lt fun hlt => ?_
  have hrank := rankOf_mono (Nat.le_of_lt hlt) 1
  rw [rankOf_units, rankOf_units] at hrank
  obtain rfl := Nat.le_antisymm h hrank
  exact Nat.lt_irrefl _ hlt

end CameraFleet.Binary64
