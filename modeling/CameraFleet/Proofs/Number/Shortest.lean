import Mathlib
import CameraFleet.Number.Shortest
import CameraFleet.Proofs.Number.Decimal
import CameraFleet.Proofs.Number.Rounding

/-!
# The text of a double

The decimal that is written for a number reads back as the number (`shortest_reads`). It is laid
out without a point exactly where it is whole (`positional_of`, `whole_of_positional`), and for a
whole number that fits 64 bits it is (`shortest_whole`).
-/

namespace CameraFleet.Binary64

/-! ## Decimals -/

/-- The rank is nearest to the positive decimal `m * 10 ^ e`. -/
structure Reads (r m : Nat) (e : Int) : Prop where
  pos : 0 < m
  rank : rankOf (m * 10 ^ e.toNat * unit) (10 ^ (-e).toNat) = r

variable {negative : Bool} {r : Fin 0x7FF0000000000000} {m : Nat} {e : Int}

theorem rankOf_of_ofUnits {n d : Nat} (h : ofUnits negative n d = .finite negative r) :
    rankOf n d = r.val := by
  unfold ofUnits at h
  split_ifs at h
  simp only [finite.injEq, true_and] at h
  rw [← h]

theorem reads_of_ofDecimal (hr : r.val ≠ 0) (h : ofDecimal negative m e = .finite negative r) :
    Reads r m e := by
  unfold ofDecimal at h
  simp only at h
  split_ifs at h with hzero hlarge he
  · simp only [finite.injEq, true_and] at h
    exact absurd (congrArg Fin.val h).symm hr
  · refine ⟨by omega, ?_⟩
    have hneg : (-e).toNat = 0 := by omega
    rw [hneg, Nat.pow_zero, ← Nat.pow_eq]
    exact rankOf_of_ofUnits h
  · refine ⟨by omega, ?_⟩
    have hpos : e.toNat = 0 := by omega
    rw [hpos, Nat.pow_zero, Nat.mul_one, ← Nat.pow_eq]
    exact rankOf_of_ofUnits h

theorem ofUnits_of_rankOf {n d : Nat} (negative : Bool) (h : rankOf n d = r.val) :
    ofUnits negative n d = .finite negative r := by
  unfold ofUnits
  simp only [h, r.isLt, dif_pos]

theorem ofDecimal_of_units {n : Nat} (hn : 0 < n) (hlarge : n < 2 ^ 64)
    (hunits : units r = n * unit) : ofDecimal negative n 0 = .finite negative r := by
  have hlength : (Nat.toDigits 10 n).length ≤ 20 :=
    (Nat.length_toDigits_le_iff (by decide) (by decide)).2 (by omega)
  unfold ofDecimal
  simp only
  rw [if_neg (by omega), if_neg (by omega), if_pos (Int.le_refl 0), ofRatio, Int.toNat_zero,
    Nat.pow_eq, Nat.pow_zero, Nat.mul_one, ← hunits]
  exact ofUnits_of_rankOf negative (rankOf_units r)

theorem withDigits?_of {count : Nat} {d : Decimal} (h : withDigits? negative r count = some d) :
    ∃ m, d = .of m (leadingExponent (units r) unit - ((count : Int) - 1)) ∧
      ofDecimal negative m (leadingExponent (units r) unit - ((count : Int) - 1)) =
        .finite negative r := by
  unfold withDigits? at h
  rcases inUnitsOf (units r) unit (leadingExponent (units r) unit - ((count : Int) - 1))
    with ⟨n, k⟩
  simp only [decide_eq_true_eq] at h
  split_ifs at h with hbelow habove habove
  · exact ⟨_, (Option.some.inj h).symm, habove.1⟩
  · exact ⟨_, (Option.some.inj h).symm, hbelow⟩
  · exact ⟨_, (Option.some.inj h).symm, habove⟩

/-! The exponent of the smallest unit stands for itself below: a power with it is too large to
compute. -/

theorem unit_eq {k : Nat} (hk : k = 1074) : unit = 2 ^ k := by
  rw [unit, ← hk, Nat.one_shiftLeft]

theorem shortest_eq {k : Nat} (hk : k = 1074) (negative : Bool) (r : Fin 0x7FF0000000000000) :
    shortest negative r =
      ((List.range 17).findSome? fun i => withDigits? negative r (i + 1)).getD
        (.of (units r * Nat.pow 5 k) (-k)) := by
  rw [shortest, ← hk]
  subst hk
  congr 1

/-- The exact value, with enough places behind the point, reads back too. -/
theorem exact_reads (hr : r.val ≠ 0) {k : Nat} (hk : k = 1074) :
    Reads r (units r * Nat.pow 5 k) (-k) := by
  have hscale := rankOf_mul_self (units r) (Nat.pow_pos (n := k) (show 0 < 10 by decide))
  rw [rankOf_units, show 10 = 5 * 2 from rfl, Nat.mul_pow, ← Nat.mul_assoc, ← Nat.mul_pow]
    at hscale
  rw [Nat.pow_eq]
  refine ⟨Nat.mul_pos (units_pos hr) (Nat.pow_pos (by decide)), ?_⟩
  rw [show (-(k : Int)).toNat = 0 by omega, Int.neg_neg, Int.toNat_natCast, Nat.pow_zero,
    Nat.mul_one, unit_eq hk]
  exact hscale

theorem shortest_reads (negative : Bool) (hr : r.val ≠ 0) :
    ∃ m e, shortest negative r = .of m e ∧ Reads r m e := by
  obtain ⟨k, hk⟩ : ∃ k, k = 1074 := ⟨_, rfl⟩
  rw [shortest_eq hk]
  rcases h : (List.range 17).findSome? (fun i => withDigits? negative r (i + 1)) with _ | d
  · exact ⟨_, _, rfl, exact_reads hr hk⟩
  · obtain ⟨i, -, hi⟩ := List.exists_of_findSome?_eq_some h
    obtain ⟨m, hd, hm⟩ := withDigits?_of hi
    exact ⟨m, _, hd, reads_of_ofDecimal hr hm⟩

/-! ## Texts -/

/-- The digits without the zeros at their end. -/
def stripZeros (cs : List Char) : List Char :=
  (cs.reverse.dropWhile (· = '0')).reverse

/-- The digits are put together again from those that are kept and zeros. -/
theorem stripZeros_append (cs : List Char) :
    stripZeros cs ++ List.replicate (cs.length - (stripZeros cs).length) '0' = cs := by
  have hparts := List.takeWhile_append_dropWhile (p := (· = '0')) (l := cs.reverse)
  have hzeros : cs.reverse.takeWhile (· = '0') =
      List.replicate (cs.reverse.takeWhile (· = '0')).length '0' :=
    List.eq_replicate_of_mem fun c hc => by simpa using List.mem_takeWhile_imp hc
  have hlength := congrArg List.length hparts
  simp only [List.length_append, List.length_reverse] at hlength
  have hcount : cs.length - (stripZeros cs).length =
      (cs.reverse.takeWhile (· = '0')).length := by
    simp only [stripZeros, List.length_reverse]
    omega
  rw [hcount, ← List.reverse_replicate, ← hzeros, stripZeros, ← List.reverse_append, hparts,
    List.reverse_reverse]

theorem point_of (m : Nat) (e : Int) : (Decimal.of m e).point = (Natural.digits m).length + e := rfl

theorem digits_of (m : Nat) (e : Int) :
    (Decimal.of m e).digits = stripZeros (Natural.digits m) := rfl

theorem of_mul_ten {m : Nat} (hm : 0 < m) (e : Int) :
    Decimal.of (m * 10) (e - 1) = Decimal.of m e := by
  have hdigits : Natural.digits (m * 10) = Natural.digits m ++ ['0'] := by
    have := Natural.digits_append hm (show 0 < 10 by decide)
    rwa [Nat.add_zero, Nat.mul_comm] at this
  unfold Decimal.of
  simp only [hdigits, List.reverse_append, List.length_append]
  congr 1
  simp only [List.length_singleton]
  omega

theorem of_mul_pow {m : Nat} (hm : 0 < m) (e : Int) (k : Nat) :
    Decimal.of (m * 10 ^ k) (e - k) = Decimal.of m e := by
  induction k with
  | zero => simp
  | succ k ih =>
    have hpos : 0 < m * 10 ^ k := Nat.mul_pos hm (Nat.pow_pos (by decide))
    rw [Nat.pow_succ, ← Nat.mul_assoc, ← ih, ← of_mul_ten hpos]
    congr 1
    omega

theorem length_stripZeros_le (cs : List Char) : (stripZeros cs).length ≤ cs.length := by
  have hlength := congrArg List.length (stripZeros_append cs)
  rw [List.length_append] at hlength
  omega

theorem positional_of {v : Nat} : (Decimal.of v 0).positional [] = Natural.digits v := by
  have hpos : 0 < (Natural.digits v).length := List.length_pos_iff.2 (Natural.digits_ne_nil v)
  have hle := length_stripZeros_le (Natural.digits v)
  unfold Decimal.positional
  rw [point_of, digits_of, if_neg (by omega)]
  simp only
  rw [if_neg (by omega), List.append_nil]
  have hbefore : (((Natural.digits v).length : Int) + 0).toNat = (Natural.digits v).length := by
    omega
  rw [hbefore]
  exact stripZeros_append _

/-- The zeros that have been stripped are a power of ten. -/
theorem exists_stripped (m : Nat) (e : Int) : ∃ z : Nat,
    m = Nat.ofDigitChars 10 (Decimal.of m e).digits 0 * 10 ^ z ∧
      (Decimal.of m e).point = (Decimal.of m e).digits.length + (e + z) := by
  rw [digits_of, point_of]
  refine ⟨(Natural.digits m).length - (stripZeros (Natural.digits m)).length, ?_, ?_⟩
  · have hvalue := Natural.ofDigitChars_digits m
    rw [← stripZeros_append (Natural.digits m), Nat.ofDigitChars_append,
      Nat.ofDigitChars_replicate_zero, Nat.mul_comm] at hvalue
    exact hvalue.symm
  · have hle := length_stripZeros_le (Natural.digits m)
    omega

theorem whole_of_positional (hm : 0 < m) (h : '.' ∉ (Decimal.of m e).positional []) :
    ∃ v, 0 < v ∧ Decimal.of m e = .of v 0 ∧ m * 10 ^ e.toNat = v * 10 ^ (-e).toNat := by
  rcases Int.le_total 0 e with he | he
  · refine ⟨m * 10 ^ e.toNat, Nat.mul_pos hm (Nat.pow_pos (by decide)), ?_, ?_⟩
    · rw [← of_mul_pow hm e e.toNat]
      congr 1
      omega
    · rw [show (-e).toNat = 0 by omega, Nat.pow_zero, Nat.mul_one]
  · obtain ⟨z, hvalue, hpoint⟩ := exists_stripped m e
    have hplaces : (-e).toNat ≤ z := by
      unfold Decimal.positional at h
      simp only at h
      split_ifs at h
      · simp at h
      · simp at h
      · omega
    obtain ⟨k, rfl⟩ := Nat.exists_eq_add_of_le hplaces
    generalize Nat.ofDigitChars 10 (Decimal.of m e).digits 0 = w at hvalue
    have hv : w * 10 ^ k * 10 ^ (-e).toNat = m := by
      rw [hvalue, Nat.add_comm, Nat.pow_add, Nat.mul_assoc]
    have hpos : 0 < w * 10 ^ k := Nat.pos_of_mul_pos_right (hv ▸ hm)
    refine ⟨w * 10 ^ k, hpos, ?_, ?_⟩
    · rw [← of_mul_pow hpos 0 (-e).toNat, hv]
      congr 1
      omega
    · rw [show e.toNat = 0 by omega, Nat.pow_zero, Nat.mul_one, hv]

/-! ## Whole numbers -/

theorem of_nonneg (hm : 0 < m) (he : 0 ≤ e) : Decimal.of m e = .of (m * 10 ^ e.toNat) 0 := by
  rw [← of_mul_pow hm e e.toNat]
  congr 1
  omega

variable {n : Nat}

theorem unit_pos : 0 < unit := by
  decide +kernel

theorem leadingExponent_mul_unit (hn : 0 < n) :
    leadingExponent (n * unit) unit = (Natural.digits n).length - 1 := by
  unfold leadingExponent
  rw [if_pos (Nat.le_mul_of_pos_left unit hn), Nat.mul_div_left n unit_pos]

/-- All digits of a whole number read back as it. -/
theorem withDigits?_whole (hn : 0 < n) (hlarge : n < 2 ^ 64) (hunits : units r = n * unit) :
    (withDigits? negative r (Natural.digits n).length).isSome = true := by
  have hexponent : ((Natural.digits n).length : Int) - 1 - ((Natural.digits n).length - 1) = 0 := by
    omega
  unfold withDigits?
  simp only [hunits, leadingExponent_mul_unit hn, hexponent, inUnitsOf, Int.le_refl, if_true,
    Int.toNat_zero, Nat.pow_eq, Nat.pow_zero, Nat.mul_one, Nat.mul_div_left n unit_pos,
    ofDecimal_of_units hn hlarge hunits, decide_true]
  split_ifs <;> rfl

theorem exact_whole (hn : 0 < n) (hunits : units r = n * unit) {k : Nat} (hk : k = 1074) :
    Decimal.of (units r * Nat.pow 5 k) (-k) = .of n 0 := by
  have hten : units r * Nat.pow 5 k = n * 10 ^ k := by
    rw [hunits, unit_eq hk, Nat.pow_eq, Nat.mul_assoc, ← Nat.mul_pow]
  rw [hten, ← of_mul_pow hn 0 k, Int.zero_sub]

theorem mem_of_range_eq {l₁ l₂ : List Nat} {a k x : Nat} (h : List.range k = l₁ ++ a :: l₂)
    (hx : x < a) : x ∈ l₁ := by
  have hsorted := List.pairwise_lt_range (n := k)
  have ha : a < k := List.mem_range.1 (h ▸ List.mem_append_right _ List.mem_cons_self)
  have hmem : x ∈ l₁ ++ a :: l₂ := h ▸ List.mem_range.2 (hx.trans ha)
  rw [h, List.pairwise_append, List.pairwise_cons] at hsorted
  rcases List.mem_append.1 hmem with hmem | hmem
  · exact hmem
  · rcases List.mem_cons.1 hmem with rfl | hmem
    · exact absurd hx (lt_irrefl _)
    · exact absurd (hsorted.2.1.1 x hmem) hx.asymm

/-- All digits of a whole number read back, so the search for the shortest text stops there at the
latest. -/
theorem shortest_whole (negative : Bool) (hr : r.val ≠ 0) (hn : 0 < n) (hlarge : n < 2 ^ 64)
    (hunits : units r = n * unit) : ∃ v, shortest negative r = .of v 0 := by
  obtain ⟨k, hk⟩ : ∃ k, k = 1074 := ⟨_, rfl⟩
  rw [shortest_eq hk]
  rcases h : (List.range 17).findSome? (fun i => withDigits? negative r (i + 1)) with _ | d
  · exact ⟨n, exact_whole hn hunits hk⟩
  · obtain ⟨l₁, a, l₂, hrange, ha, hnone⟩ := List.findSome?_eq_some_iff.1 h
    have hpos : 0 < (Natural.digits n).length := List.length_pos_iff.2 (Natural.digits_ne_nil n)
    have hle : a < (Natural.digits n).length := by
      refine Nat.lt_of_not_le fun hge => ?_
      have hx : (Natural.digits n).length - 1 < a := by omega
      have hfull : (withDigits? negative r (Natural.digits n).length).isSome = true :=
        withDigits?_whole hn hlarge hunits
      rw [← Nat.sub_add_cancel hpos, hnone _ (mem_of_range_eq hrange hx)] at hfull
      exact absurd hfull Bool.false_ne_true
    obtain ⟨m, hd, hm⟩ := withDigits?_of ha
    refine ⟨_, hd.trans (of_nonneg (reads_of_ofDecimal hr hm).pos ?_)⟩
    rw [hunits, leadingExponent_mul_unit hn]
    omega

/-! ## Naturals and their doubles -/

/-- What is nearest to a natural number is one, on the same side of `2 ^ k`. -/
theorem whole_of_rankOf {v r : Nat} (h : rankOf (v * unit) 1 = r) (k : Nat) :
    unit ∣ units r ∧ (2 ^ k ≤ v → 2 ^ k * unit ≤ units r) ∧
      (v < 2 ^ k → units r ≤ 2 ^ k * unit) := by
  obtain ⟨j, hj⟩ : ∃ j, unit = 2 ^ j := ⟨1074, unit_eq rfl⟩
  subst h
  rw [hj, ← Nat.pow_add]
  refine ⟨dvd_units_rankOf (Nat.dvd_mul_left _ v), fun hv => le_units_rankOf ?_,
    fun hv => units_rankOf_le ?_⟩
  · rw [Nat.pow_add]
    exact Nat.mul_le_mul_right _ hv
  · rw [Nat.pow_add]
    exact Nat.mul_lt_mul_of_pos_right hv (Nat.two_pow_pos j)

/-- A positive number is written with a point, or with the digits of a natural number that it is
nearest to. -/
theorem positional_cases (negative : Bool) (hr : r.val ≠ 0) :
    '.' ∈ (shortest negative r).positional [] ∨
      ∃ v, (shortest negative r).positional [] = Natural.digits v ∧
        rankOf (v * unit) 1 = r.val := by
  obtain ⟨m, e, hshortest, hreads⟩ := shortest_reads negative hr
  by_cases hdot : '.' ∈ (shortest negative r).positional []
  · exact Or.inl hdot
  · rw [hshortest] at hdot ⊢
    obtain ⟨v, -, hv, hvalue⟩ := whole_of_positional hreads.pos hdot
    refine Or.inr ⟨v, ?_, ?_⟩
    · rw [hv, positional_of]
    · have hrank := hreads.rank
      rw [hvalue, Nat.mul_right_comm] at hrank
      rwa [rankOf_mul_self _ (Nat.pow_pos (by decide))] at hrank

end CameraFleet.Binary64
