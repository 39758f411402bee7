import CameraFleet.Proofs.Json.Number

/-!
# Decimals with few places

A decimal with at most five places and fourteen digits is read back from the text of its double
(`readsBack_ofDecimal`). No more than its own places are found for the double (`shortest_places`),
so the digits are computed with exactly, and dividing them by a power of ten is rounded once.
-/

namespace CameraFleet

theorem Natural.length_digits_le_iff {n k : Nat} (hk : 0 < k) :
    (digits n).length ≤ k ↔ n < 10 ^ k :=
  Nat.length_toDigits_le_iff (by decide) hk

namespace Binary64

variable {negative : Bool} {r : Fin 0x7FF0000000000000} {m p : Nat}

/-! ## The digits that are found -/

theorem reads_places_iff : Reads r m (-p) ↔ 0 < m ∧ rankOf (m * unit) (10 ^ p) = r.val := by
  have hscale : (-(p : Int)).toNat = 0 := by omega
  have hplaces : (- -(p : Int)).toNat = p := by omega
  constructor
  · rintro ⟨hpos, hrank⟩
    rw [hscale, hplaces, Nat.pow_zero, Nat.mul_one] at hrank
    exact ⟨hpos, hrank⟩
  · rintro ⟨hpos, hrank⟩
    refine ⟨hpos, ?_⟩
    rw [hscale, hplaces, Nat.pow_zero, Nat.mul_one]
    exact hrank

theorem ofDecimal_places (hm : 0 < m) (hlarge : m < 10 ^ 15) (hp : p ≤ 5) (negative : Bool) :
    ofDecimal negative m (-p) = ofUnits negative (m * unit) (10 ^ p) := by
  have hlength : (Nat.toDigits 10 m).length ≤ 15 :=
    (Nat.length_toDigits_le_iff (by decide) (by decide)).2 hlarge
  unfold ofDecimal
  simp only
  rw [if_neg (by omega), if_neg (by omega)]
  split_ifs with hzero
  · obtain rfl : p = 0 := by omega
    rw [ofRatio, show (-((0 : Nat) : Int)).toNat = 0 from rfl, Nat.pow_eq, Nat.pow_zero,
      Nat.mul_one]
  · rw [ofRatio, show (- -(p : Int)).toNat = p by omega, Nat.pow_eq]

/-- The decimals with `p` places next to the number are below and above it; one of them reads back
where any decimal with `p` places does. -/
theorem exists_reads_places (h : Reads r m (-p)) :
    Reads r (units r * 10 ^ p / unit) (-p) ∨ Reads r (units r * 10 ^ p / unit + 1) (-p) := by
  obtain ⟨hpos, hrank⟩ := reads_places_iff.1 h
  have hunit : 0 < unit := unit_pos
  have hten : 0 < 10 ^ p := Nat.pow_pos (by decide)
  have hself := rankOf_units r
  rcases Nat.lt_or_ge (units r * 10 ^ p / unit) m with habove | hbelow
  · have hover : units r * 10 ^ p ≤ (units r * 10 ^ p / unit + 1) * unit := by
      rw [Nat.mul_comm _ unit]
      exact Nat.le_of_lt (Nat.lt_mul_div_succ _ hunit)
    have hle : rankOf (units r) 1 ≤ rankOf ((units r * 10 ^ p / unit + 1) * unit) (10 ^ p) :=
      rankOf_le_rankOf Nat.one_pos hten (by rwa [Nat.mul_one])
    have hge := rankOf_mono (Nat.mul_le_mul_right unit habove) (10 ^ p)
    rw [hself] at hle
    rw [hrank] at hge
    exact Or.inr (reads_places_iff.2 ⟨Nat.succ_pos _, Nat.le_antisymm hge hle⟩)
  · have hle : rankOf (units r * 10 ^ p / unit * unit) (10 ^ p) ≤ rankOf (units r) 1 :=
      rankOf_le_rankOf hten Nat.one_pos
        (by rw [Nat.mul_one]; exact Nat.div_mul_le_self _ _)
    have hge := rankOf_mono (Nat.mul_le_mul_right unit hbelow) (10 ^ p)
    rw [hself] at hle
    rw [hrank] at hge
    exact Or.inl (reads_places_iff.2 ⟨hpos.trans_le hbelow, Nat.le_antisymm hle hge⟩)

/-- Rounding moves a decimal neither below one of its last place nor past the greatest one. -/
theorem units_bounds (hlarge : m ≤ 10 ^ 14) (hp : p ≤ 5) (h : Reads r m (-p)) :
    unit ≤ units r * 10 ^ p ∧ units r * 10 ^ p ≤ 10 ^ 14 * unit := by
  obtain ⟨hpos, hrank⟩ := reads_places_iff.1 h
  constructor
  · have hleast : ∀ p < 6, unit ≤ units (rankOf unit (10 ^ p)) * 10 ^ p := by decide +kernel
    have hle := units_mono (rankOf_mono (Nat.le_mul_of_pos_left unit hpos) (10 ^ p))
    rw [hrank] at hle
    exact (hleast p (by omega)).trans (Nat.mul_le_mul_right _ hle)
  · have hle := units_mono (rankOf_mono (Nat.mul_le_mul_right unit hlarge) (10 ^ p))
    have hsplit : 10 ^ 14 = 10 ^ (14 - p) * 10 ^ p := by
      rw [← Nat.pow_add, Nat.sub_add_cancel (by omega)]
    have hwhole : 10 ^ (14 - p) < 2 ^ 53 :=
      Nat.lt_of_le_of_lt (Nat.pow_le_pow_right (by decide) (Nat.sub_le 14 p)) (by decide)
    have hunits : units (rankOf (10 ^ (14 - p) * unit) 1) = 10 ^ (14 - p) * unit := by
      rw [unit_eq rfl]
      exact units_rankOf_mul_pow hwhole _
    rw [hrank, hsplit, Nat.mul_right_comm, rankOf_mul_self _ (Nat.pow_pos (by decide)),
      hunits] at hle
    rw [hsplit, Nat.mul_right_comm]
    exact Nat.mul_le_mul_right _ hle

theorem leadingExponent_bounds {n d a b : Nat} (hn : 0 < n) (hlow : d ≤ n * 10 ^ a)
    (hhigh : n < d * 10 ^ b) : -(a : Int) ≤ leadingExponent n d ∧ leadingExponent n d < b := by
  unfold leadingExponent
  split_ifs with hd
  · have hb : 0 < b := by
      refine Nat.pos_of_ne_zero ?_
      rintro rfl
      omega
    have hdigits : (Natural.digits (n / d)).length ≤ b :=
      (Natural.length_digits_le_iff hb).2 (Nat.div_lt_of_lt_mul hhigh)
    have hpos := List.length_pos_iff.2 (Natural.digits_ne_nil (n / d))
    omega
  · have ha : 0 < a := by
      refine Nat.pos_of_ne_zero ?_
      rintro rfl
      omega
    have hten : 0 < 10 ^ a := Nat.pow_pos (by decide)
    have hquotient : (d + n - 1) / n < 10 ^ a + 1 := by
      rw [Nat.div_lt_iff_lt_mul hn, Nat.add_mul, Nat.mul_comm]
      omega
    have hdigits : (Natural.digits ((d + n - 1) / n - 1)).length ≤ a :=
      (Natural.length_digits_le_iff ha).2 (by omega)
    have hpos := List.length_pos_iff.2 (Natural.digits_ne_nil ((d + n - 1) / n - 1))
    omega

/-- The digits up to the place `p` read back as the number if any decimal with `p` places does. -/
theorem withDigits?_places (negative : Bool) (hlarge : units r * 10 ^ p ≤ 10 ^ 14 * unit)
    (hp : p ≤ 5) (h : Reads r m (-p)) {count : Nat}
    (hcount : leadingExponent (units r) unit - ((count : Int) - 1) = -p) :
    (withDigits? negative r count).isSome = true := by
  have hbelow : units r * 10 ^ p / unit ≤ 10 ^ 14 :=
    Nat.div_le_of_le_mul (by rwa [Nat.mul_comm unit])
  have hreads : ∀ m, m < 10 ^ 15 → Reads r m (-p) →
      ofDecimal negative m (-p) = .finite negative r := by
    intro m hm hmr
    obtain ⟨hpos, hrank⟩ := reads_places_iff.1 hmr
    rw [ofDecimal_places hpos hm hp, ofUnits_of_rankOf negative hrank]
  have hunits : inUnitsOf (units r) unit (-p) = (units r * 10 ^ p, unit) := by
    unfold inUnitsOf
    split_ifs with hzero
    · obtain rfl : p = 0 := by omega
      simp
    · rw [show (- -(p : Int)).toNat = p by omega, Nat.pow_eq]
  unfold withDigits?
  simp only [hcount, hunits, decide_eq_true_eq]
  rcases exists_reads_places h with hnext | hnext
  · rw [if_pos (hreads _ (by omega) hnext)]
    split_ifs <;> rfl
  · have habove := hreads _ (by omega) hnext
    split_ifs <;> rfl

/-- No more than the digits up to the place `p` are found for a number that a decimal with `p`
places reads back as. -/
theorem shortest_places (negative : Bool) (hr : r.val ≠ 0) (hm : m ≤ 10 ^ 14) (hp : p ≤ 5)
    (h : Reads r m (-p)) :
    ∃ m' e, shortest negative r = .of m' e ∧ Reads r m' e ∧ -(p : Int) ≤ e := by
  obtain ⟨hlow, hhigh⟩ := units_bounds hm hp h
  have hunit : 0 < unit := unit_pos
  have hsmall : units r < unit * 10 ^ (15 - p) := by
    refine Nat.lt_of_mul_lt_mul_right (a := 10 ^ p) (hhigh.trans_lt ?_)
    rw [Nat.mul_assoc, ← Nat.pow_add, Nat.sub_add_cancel (by omega), Nat.mul_comm]
    exact Nat.mul_lt_mul_of_pos_left (by decide) hunit
  obtain ⟨hleast, hgreatest⟩ := leadingExponent_bounds (units_pos hr) hlow hsmall
  obtain ⟨count, hcount⟩ := Int.eq_ofNat_of_zero_le (by omega :
    0 ≤ leadingExponent (units r) unit + p)
  have hexponent : leadingExponent (units r) unit - (((count + 1 : Nat) : Int) - 1) = -p := by
    omega
  have hfull := withDigits?_places negative hhigh hp h hexponent
  obtain ⟨k, hk⟩ : ∃ k, k = 1074 := ⟨_, rfl⟩
  rw [shortest_eq hk]
  rcases hfind : (List.range 17).findSome? (fun i => withDigits? negative r (i + 1)) with _ | d
  · rw [List.findSome?_eq_none_iff.1 hfind count (List.mem_range.2 (by omega))] at hfull
    exact absurd hfull Bool.false_ne_true
  · obtain ⟨l₁, a, l₂, hrange, ha, hnone⟩ := List.findSome?_eq_some_iff.1 hfind
    have hle : a ≤ count := by
      refine Nat.le_of_not_lt fun hgt => ?_
      rw [hnone _ (mem_of_range_eq hrange hgt)] at hfull
      exact absurd hfull Bool.false_ne_true
    obtain ⟨m', hd, hm'⟩ := withDigits?_of ha
    exact ⟨m', _, hd, reads_of_ofDecimal hr hm', by omega⟩

/-! ## The digits that are read -/

/-- The text without an exponent denotes the decimal that it was made from. -/
theorem positional_of_point (hm : 0 < m) (e : Int) : ∃ w f,
    (Decimal.of m e).positional ['.', '0'] = w ++ '.' :: f ∧ Natural.isCanonical w = true ∧
      f ≠ [] ∧ (∀ c ∈ f, c.isDigit = true) ∧ (f.length : Int) ≤ max 1 (-e) ∧
      Nat.ofDigitChars 10 (w ++ f) 0 * 10 ^ (-e).toNat = m * 10 ^ e.toNat * 10 ^ f.length := by
  obtain ⟨w, f, hlayout, hw, hne, hf, hlength, hvalue⟩ :=
    Json.positional_point (Decimal.isProper_of hm e)
  obtain ⟨z, hm', hpoint⟩ := exists_stripped m e
  refine ⟨w, f, hlayout, hw, hne, hf, ?_, ?_⟩
  · omega
  · have hstripped : ((Decimal.of m e).digits.length - (Decimal.of m e).point : Int) =
        -(e + z) := by omega
    have hscale : ((Decimal.of m e).point - (Decimal.of m e).digits.length : Int) = e + z := by
      omega
    have hpowers : 10 ^ (e + z).toNat * 10 ^ (-e).toNat =
        10 ^ z * 10 ^ e.toNat * 10 ^ (-(e + z)).toNat := by
      rw [← Nat.pow_add, ← Nat.pow_add, ← Nat.pow_add]
      congr 1
      omega
    rw [hstripped, hscale] at hvalue
    generalize Nat.ofDigitChars 10 (Decimal.of m e).digits 0 = c at hvalue hm'
    have hpos : 0 < 10 ^ (-(e + z)).toNat := Nat.pow_pos (by decide)
    refine Nat.eq_of_mul_eq_mul_right hpos ?_
    calc Nat.ofDigitChars 10 (w ++ f) 0 * 10 ^ (-e).toNat * 10 ^ (-(e + z)).toNat
        = c * (10 ^ (e + z).toNat * 10 ^ (-e).toNat) * 10 ^ f.length := by
          rw [Nat.mul_right_comm, hvalue]
          ac_rfl
      _ = c * 10 ^ z * 10 ^ e.toNat * 10 ^ f.length * 10 ^ (-(e + z)).toNat := by
          rw [hpowers]
          ac_rfl
      _ = m * 10 ^ e.toNat * 10 ^ f.length * 10 ^ (-(e + z)).toNat := by rw [← hm']

/-! ## Quotients of naturals -/

theorem ofUnits_congr {n d n' d' : Nat} (negative : Bool) (h : rankOf n d = rankOf n' d') :
    ofUnits negative n d = ofUnits negative n' d' := by
  unfold ofUnits
  simp only [h]

/-- A natural number below `2 ^ 53` is a double. -/
theorem ofInt_natCast {v : Nat} (hv : v < 2 ^ 53) :
    ∃ r : Fin 0x7FF0000000000000, ofInt v = .finite false r ∧ units r = v * unit := by
  have hlast : rankOf (2 ^ 53 * unit) 1 < 0x7FF0000000000000 := by decide +kernel
  have hrank := rankOf_mono (Nat.mul_le_mul_right unit (Nat.le_of_lt hv)) 1
  have hunits : units (rankOf (v * unit) 1) = v * unit := by
    rw [unit_eq rfl]
    exact units_rankOf_mul_pow hv _
  refine ⟨⟨rankOf (v * unit) 1, hrank.trans_lt hlast⟩, ?_, hunits⟩
  have hsign : decide ((v : Int) < 0) = false := by simp
  rw [ofInt, hsign, Int.natAbs_natCast, ofRatio]
  exact ofUnits_of_rankOf false rfl

/-- A quotient of natural numbers that are doubles is rounded once. -/
theorem div_ofInt {v d : Nat} (hv : v < 2 ^ 53) (hpos : 0 < d) (hd : d < 2 ^ 53) :
    (ofInt v).div (ofInt d) = ofRatio false v d := by
  obtain ⟨x, hx, hxunits⟩ := ofInt_natCast hv
  obtain ⟨y, hy, hyunits⟩ := ofInt_natCast hd
  have hy0 : y.val ≠ 0 := by
    intro hzero
    rw [hzero] at hyunits
    have := Nat.mul_pos hpos unit_pos
    rw [← hyunits] at this
    exact absurd this (by decide)
  rw [hx, hy, div, if_neg hy0, hxunits, hyunits, bne_self_eq_false, ofRatio, ofRatio]
  exact ofUnits_congr false (rankOf_mul_right _ _ unit_pos)

theorem negate_ofUnits (n d : Nat) : (ofUnits false n d).negate = ofUnits true n d := by
  unfold ofUnits
  split_ifs <;> rfl

end Binary64

/-! ## Doubles that are read back -/

namespace Json

open Binary64

theorem tenTo_eq {n : Nat} (hn : n ≤ 308) : tenTo n = .ofInt ((10 ^ n : Nat) : Int) := by
  have hsign : decide (((10 ^ n : Nat) : Int) < 0) = false := by
    rw [decide_eq_false_iff_not]
    exact Int.not_lt.2 (Int.natCast_nonneg _)
  have hlength : (Nat.toDigits 10 1).length = 1 := rfl
  unfold tenTo ofDecimal
  simp only [hlength]
  rw [if_neg (by omega), if_neg (by omega), if_pos (by omega), Binary64.ofInt, hsign,
    Int.natAbs_natCast, Int.toNat_natCast, Nat.pow_eq, Nat.one_mul]

theorem real?_of_lt (negative : Bool) {v k : Nat} (hv : v < 2 ^ 53) (hk : 0 < k) (hk' : k ≤ 15) :
    real? negative v (-k) = some (ofRatio negative v (10 ^ k)) := by
  have hten : 10 ^ k < 2 ^ 53 :=
    Nat.lt_of_le_of_lt (Nat.pow_le_pow_right (by decide) hk') (by decide)
  have hplaces : (- -(k : Int)).toNat = k := by omega
  unfold real?
  simp only
  rw [if_neg (by omega), hplaces, scaleDown, if_pos (by omega), tenTo_eq (by omega),
    div_ofInt hv (Nat.pow_pos (by decide)) hten]
  cases negative with
  | false => simp only [Option.map_some, Bool.false_eq_true, if_false]
  | true => simp only [Option.map_some, if_true, ofRatio, negate_ofUnits]

variable {negative : Bool} {r : Fin 0x7FF0000000000000} {m p : Nat} {e : Int}

/-- A decimal with few places and not too large is laid out without an exponent. -/
theorem point_bounds (hm : 0 < m) (hp : p ≤ 5) (hplaces : -(p : Int) ≤ e)
    (hlarge : m * 10 ^ e.toNat * 10 ^ p < 2 ^ 53 * 10 ^ (-e).toNat) :
    -5 < (Decimal.of m e).point ∧ (Decimal.of m e).point ≤ 16 := by
  have hle : 10 ^ (-e).toNat ≤ 10 ^ p := Nat.pow_le_pow_right (by decide) (by omega)
  have hsmall : m * 10 ^ e.toNat < 2 ^ 53 :=
    Nat.lt_of_mul_lt_mul_right (hlarge.trans_le (Nat.mul_le_mul_left _ hle))
  have hlength : (Natural.digits (m * 10 ^ e.toNat)).length ≤ 16 :=
    (Natural.length_digits_le_iff (by decide)).2 (hsmall.trans (by decide))
  have hpos := List.length_pos_iff.2 (Natural.digits_ne_nil m)
  rcases Int.le_total 0 e with he | he
  · have hwhole := congrArg Decimal.point (of_nonneg hm he)
    rw [point_of, point_of] at hwhole
    rw [point_of]
    omega
  · rw [show e.toNat = 0 by omega, Nat.pow_zero, Nat.mul_one] at hlength
    rw [point_of]
    omega

/-- A number that few digits are found for is read back from them. -/
theorem number?_document_of_shortest (hr : r.val ≠ 0) (hshortest : shortest negative r = .of m e)
    (hreads : Reads r m e) (hpos : 0 < p) (hp : p ≤ 5) (hplaces : -(p : Int) ≤ e)
    (hlarge : m * 10 ^ e.toNat * 10 ^ p < 2 ^ 53 * 10 ^ (-e).toNat) :
    number? (document (.finite negative r)) = some (.real (.finite negative r)) := by
  obtain ⟨w, f, hlayout, hw, hne, hf, hlength, hvalue⟩ := positional_of_point hreads.pos e
  have hten : ∀ k, 0 < 10 ^ k := fun k => Nat.pow_pos (by decide)
  have hpoint := point_bounds hreads.pos hp hplaces hlarge
  have hplaces' : 10 ^ f.length ≤ 10 ^ p := Nat.pow_le_pow_right (by decide) (by omega)
  have hsmall : Nat.ofDigitChars 10 (w ++ f) 0 < 2 ^ 53 := by
    refine Nat.lt_of_mul_lt_mul_right (a := 10 ^ (-e).toNat) ?_
    rw [hvalue]
    exact (Nat.mul_le_mul_left _ hplaces').trans_lt hlarge
  have hrank : rankOf (Nat.ofDigitChars 10 (w ++ f) 0 * unit) (10 ^ f.length) = r.val := by
    rw [← rankOf_mul_right _ _ (hten (-e).toNat), Nat.mul_right_comm, hvalue, Nat.mul_right_comm,
      Nat.mul_comm (10 ^ f.length), rankOf_mul_right _ _ (hten f.length)]
    exact hreads.rank
  have hdigits : (Digits.whole 0 w).withFraction f =
      ⟨Nat.ofDigitChars 10 (w ++ f) 0, -f.length⟩ := by
    rw [Nat.ofDigitChars_append] at hsmall ⊢
    have hwhole := (le_ofDigitChars f _).trans_lt hsmall
    rw [Digits.whole_eq (hwhole.trans (by decide)),
      Digits.withFraction_eq (hsmall.trans (by decide)), Int.zero_sub]
  have hfpos : 0 < f.length := List.length_pos_iff.2 hne
  have hread := unsigned?_point negative hw hne hf
  rw [hdigits, real?_of_lt negative hsmall hfpos (by omega), ofRatio,
    ofUnits_of_rankOf negative hrank, Option.elim_some] at hread
  rw [document, if_neg hr, hshortest]
  simp only
  rw [if_pos hpoint, hlayout]
  exact number?_signed hread

/-- The double is read back from its own text. -/
def ReadsBack (x : Binary64) : Prop :=
  (number? x.document).bind Datum.number? = some x

instance (x : Binary64) : Decidable (ReadsBack x) :=
  inferInstanceAs (Decidable (_ = _))

theorem readsBack_iff {x : Binary64} : ReadsBack x ↔ number? x.document = some (.real x) := by
  unfold ReadsBack
  by_cases hx : x.isFinite
  · obtain ⟨y, hy⟩ := number?_document hx
    rw [hy, Option.bind_some]
    cases y <;> simp [Datum.number?]
  · rw [document_of_not_isFinite hx]
    exact iff_of_false nofun nofun

/-- The double of a decimal with at most five places and fourteen digits is read back from its
text. A double whose text has seventeen digits may be missed by one: the digits are rounded before
they are divided. -/
theorem readsBack_ofDecimal (negative : Bool) (hm : m ≤ 10 ^ 14) (hpos : 0 < p) (hp : p ≤ 5) :
    ReadsBack (ofDecimal negative m (-p)) := by
  rcases Nat.eq_zero_or_pos m with rfl | hmpos
  · have hzero : ofDecimal negative 0 (-p) = .finite negative 0 := by
      simp [ofDecimal]
    rw [hzero]
    cases negative <;> decide +kernel
  · have hlast : ∀ p < 6, rankOf (10 ^ 14 * unit) (10 ^ p) < rankOf (2 ^ 53 * unit) (10 ^ p) ∧
        rankOf (2 ^ 53 * unit) (10 ^ p) < 0x7FF0000000000000 := by decide +kernel
    obtain ⟨hbelow, hfinite⟩ := hlast p (by omega)
    have hrank : rankOf (m * unit) (10 ^ p) < rankOf (2 ^ 53 * unit) (10 ^ p) :=
      (rankOf_mono (Nat.mul_le_mul_right unit hm) (10 ^ p)).trans_lt hbelow
    obtain ⟨r, hr⟩ : ∃ r : Fin 0x7FF0000000000000, rankOf (m * unit) (10 ^ p) = r.val :=
      ⟨⟨_, hrank.trans hfinite⟩, rfl⟩
    have hreads : Reads r m (-p) := reads_places_iff.2 ⟨hmpos, hr⟩
    have hr0 : r.val ≠ 0 := by
      intro hzero
      have hunits := (units_bounds hm hp hreads).1
      rw [hzero] at hunits
      exact absurd (unit_pos.trans_le hunits) (by simp [units, significand])
    obtain ⟨m', e, hshortest, hreads', hplaces⟩ := shortest_places negative hr0 hm hp hreads
    have hlarge : m' * 10 ^ e.toNat * 10 ^ p < 2 ^ 53 * 10 ^ (-e).toNat := by
      refine Nat.lt_of_not_le fun hge => absurd hrank (Nat.not_lt.2 ?_)
      rw [hr, ← hreads'.rank]
      refine rankOf_le_rankOf (Nat.pow_pos (by decide)) (Nat.pow_pos (by decide)) ?_
      rw [Nat.mul_right_comm, Nat.mul_right_comm _ unit]
      exact Nat.mul_le_mul_right unit hge
    rw [ofDecimal_places hmpos (hm.trans_lt (by decide)) hp, ofUnits_of_rankOf negative hr,
      readsBack_iff]
    exact number?_document_of_shortest hr0 hshortest hreads' hpos hp hplaces hlarge

example : ¬ ReadsBack (.ofDecimal false 10989010989010989 (-15)) := by decide +kernel

end Json

end CameraFleet
