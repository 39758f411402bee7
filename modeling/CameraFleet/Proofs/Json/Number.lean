import CameraFleet.Proofs.Json.Scan
import CameraFleet.Proofs.Number.Shortest

/-!
# Numbers that are written

The text of a finite double is always a number (`number?_document`): digits, a point with digits
behind it, or an exponent. The number is a double, if perhaps another one, because the digits are
scaled in steps and every step is rounded.
-/

namespace CameraFleet

namespace Binary64.Decimal

/-- The digits of a positive number, whose first is not zero. -/
structure IsProper (d : Decimal) : Prop where
  ne_nil : d.digits ≠ []
  head : d.digits.head? ≠ some '0'
  all : ∀ c ∈ d.digits, c.isDigit = true

theorem isProper_of {m : Nat} (hm : 0 < m) (e : Int) : (Decimal.of m e).IsProper := by
  have happend := stripZeros_append (Natural.digits m)
  have hne : stripZeros (Natural.digits m) ≠ [] := by
    intro hnil
    rw [hnil, List.nil_append, List.length_nil, Nat.sub_zero] at happend
    refine Natural.head?_digits_ne_zero hm ?_
    rw [← happend, List.head?_replicate, if_neg]
    exact fun h => Natural.digits_ne_nil m (List.length_eq_zero_iff.1 h)
  refine ⟨hne, ?_, fun c hc => ?_⟩
  · rw [digits_of, ← List.head?_append_of_ne_nil _ hne, happend]
    exact Natural.head?_digits_ne_zero hm
  · refine Natural.isDigit_of_mem_digits (n := m) ?_
    rw [← happend]
    exact List.mem_append_left _ hc

end Binary64.Decimal

namespace Json

variable {negative : Bool} {w f t : List Char}

/-- The text is that of a double, or of a number too large for one. -/
def IsReal (negative : Bool) (cs : List Char) : Prop :=
  ∃ y : Option Binary64, unsigned? negative cs = some (y.elim .unreadable .real)

theorem run_digits (hw : ∀ c ∈ w, c.isDigit = true) {c : Char} (hc : c.isDigit = false)
    (rest : List Char) : (w ++ c :: rest).takeWhile Char.isDigit = w ∧
      (w ++ c :: rest).dropWhile Char.isDigit = c :: rest := by
  rw [List.takeWhile_append_of_pos hw, List.dropWhile_append_of_pos hw,
    List.takeWhile_cons_of_neg (by simp [hc]), List.dropWhile_cons_of_neg (by simp [hc]),
    List.append_nil]
  exact ⟨rfl, rfl⟩

theorem isDigit_of_isCanonical (hw : Natural.isCanonical w = true) :
    ∀ c ∈ w, c.isDigit = true := by
  rw [Natural.isCanonical_iff] at hw
  rw [hw]
  exact fun c => Natural.isDigit_of_mem_digits

theorem shape_of_isCanonical (hw : Natural.isCanonical w = true) :
    ¬ (w = [] ∨ (w.head? = some '0' ∧ w ≠ ['0'])) := by
  unfold Natural.isCanonical at hw
  grind

/-- A number with a point is the double for all its digits, scaled by the places behind it. -/
theorem unsigned?_point (negative : Bool) (hw : Natural.isCanonical w = true) (hne : f ≠ [])
    (hf : ∀ c ∈ f, c.isDigit = true) :
    unsigned? negative (w ++ '.' :: f) =
      some ((real? negative ((Digits.whole 0 w).withFraction f).value
        ((Digits.whole 0 w).withFraction f).scale).elim .unreadable .real) := by
  obtain ⟨htake, hdrop⟩ := run_digits (isDigit_of_isCanonical hw) (c := '.') rfl f
  unfold unsigned?
  simp only [htake, hdrop, if_neg (shape_of_isCanonical hw), List.takeWhile_eq_self_iff.2 hf,
    List.dropWhile_eq_nil_iff.2 hf, if_neg hne, Option.bind_eq_bind, Option.bind_some]

theorem isReal_point (hw : Natural.isCanonical w = true) (hne : f ≠ [])
    (hf : ∀ c ∈ f, c.isDigit = true) : IsReal negative (w ++ '.' :: f) :=
  ⟨_, unsigned?_point negative hw hne hf⟩

/-- What stands behind the exponent mark is a sign with digits. -/
theorem exponent?_digits (down : Bool) (n : Nat) :
    exponent? ((if down then '-' else '+') :: Natural.digits n) = some (down, n) := by
  cases down <;> simp [exponent?]

theorem isReal_exponent (hw : Natural.isCanonical w = true) (down : Bool) (n : Nat) :
    IsReal negative (w ++ 'e' :: (if down then '-' else '+') :: Natural.digits n) := by
  obtain ⟨htake, hdrop⟩ := run_digits (isDigit_of_isCanonical hw) (c := 'e') rfl
    ((if down then '-' else '+') :: Natural.digits n)
  unfold IsReal unsigned?
  simp only [htake, hdrop, if_neg (shape_of_isCanonical hw), exponent?_digits,
    Option.bind_eq_bind, Option.bind_some, true_or, if_true]
  exact ⟨_, rfl⟩

theorem isReal_point_exponent (hw : Natural.isCanonical w = true) (hne : f ≠ [])
    (hf : ∀ c ∈ f, c.isDigit = true) (down : Bool) (n : Nat) :
    IsReal negative
      (w ++ '.' :: (f ++ 'e' :: (if down then '-' else '+') :: Natural.digits n)) := by
  obtain ⟨htake, hdrop⟩ := run_digits (isDigit_of_isCanonical hw) (c := '.') rfl
    (f ++ 'e' :: (if down then '-' else '+') :: Natural.digits n)
  obtain ⟨htake', hdrop'⟩ := run_digits hf (c := 'e') rfl
    ((if down then '-' else '+') :: Natural.digits n)
  unfold IsReal unsigned?
  simp only [htake, hdrop, htake', hdrop', if_neg (shape_of_isCanonical hw), if_neg hne,
    exponent?_digits, Option.bind_eq_bind, Option.bind_some, true_or, if_true]
  exact ⟨_, rfl⟩

/-! ## Doubles -/

open Binary64 (Decimal)

variable {d : Decimal}

theorem isCanonical_of_proper (hne : w ≠ []) (hhead : w.head? ≠ some '0')
    (hall : ∀ c ∈ w, c.isDigit = true) : Natural.isCanonical w = true := by
  simp only [Natural.isCanonical, Bool.or_eq_true, Bool.and_eq_true, decide_eq_true_eq, ne_eq]
  exact Or.inr ⟨⟨hne, hhead⟩, List.all_eq_true.2 hall⟩

theorem isCanonical_take (hd : d.IsProper) {n : Nat} (hn : 0 < n) :
    Natural.isCanonical (d.digits.take n) = true := by
  refine isCanonical_of_proper ?_ ?_ fun c hc => hd.all c (List.mem_of_mem_take hc)
  · simp [hd.ne_nil, Nat.pos_iff_ne_zero.1 hn]
  · rw [List.head?_take, if_neg (Nat.pos_iff_ne_zero.1 hn)]
    exact hd.head

/-- The digits before the point and those behind it, when a decimal is laid out without an
exponent. With the zeros that have been put in they denote what its digits do. -/
theorem positional_point (hd : d.IsProper) : ∃ w f, d.positional ['.', '0'] = w ++ '.' :: f ∧
    Natural.isCanonical w = true ∧ f ≠ [] ∧ (∀ c ∈ f, c.isDigit = true) ∧
    (f.length : Int) ≤ max 1 (d.digits.length - d.point) ∧
    Nat.ofDigitChars 10 (w ++ f) 0 * 10 ^ (d.digits.length - d.point).toNat =
      Nat.ofDigitChars 10 d.digits 0 * 10 ^ (d.point - d.digits.length).toNat *
        10 ^ f.length := by
  have hzeros : ∀ n, ∀ c ∈ List.replicate n '0', c.isDigit = true := by
    intro n c hc
    rw [List.eq_of_mem_replicate hc]
    rfl
  unfold Decimal.positional
  dsimp only
  split_ifs with hpoint hbefore
  · have hlength : (List.replicate (-d.point).toNat '0' ++ d.digits).length =
        (d.digits.length - d.point).toNat := by
      rw [List.length_append, List.length_replicate]
      omega
    refine ⟨['0'], _, rfl, rfl, by simp [hd.ne_nil],
      List.forall_mem_append.2 ⟨hzeros _, hd.all⟩, by omega, ?_⟩
    have hscale : (d.point - d.digits.length).toNat = 0 := by omega
    have hhead : Nat.ofDigitChars 10 ['0'] 0 = 0 := rfl
    rw [hlength, hscale, Nat.pow_zero, Nat.mul_one, Nat.ofDigitChars_append,
      Nat.ofDigitChars_append, Nat.ofDigitChars_replicate_zero, hhead, Nat.mul_zero]
  · refine ⟨_, _, rfl, isCanonical_take hd (by omega), ?_,
      fun c hc => hd.all c (List.mem_of_mem_drop hc), ?_, ?_⟩
    · simp only [ne_eq, List.drop_eq_nil_iff]
      omega
    · rw [List.length_drop]
      omega
    · have hscale : (d.point - d.digits.length).toNat = 0 := by omega
      have hlength : d.digits.length - d.point.toNat = (d.digits.length - d.point).toNat := by
        omega
      rw [List.take_append_drop, List.length_drop, hlength, hscale, Nat.pow_zero, Nat.mul_one]
  · refine ⟨d.digits ++ List.replicate (d.point.toNat - d.digits.length) '0', ['0'],
      rfl, isCanonical_of_proper (by simp [hd.ne_nil]) ?_ ?_, by simp,
      List.forall_mem_singleton.2 rfl, ?_, ?_⟩
    · rw [List.head?_append_of_ne_nil _ hd.ne_nil]
      exact hd.head
    · exact List.forall_mem_append.2 ⟨hd.all, hzeros _⟩
    · exact le_max_left _ _
    · have hlength : (d.digits.length - d.point).toNat = 0 := by omega
      have hscale : (d.point - d.digits.length).toNat = d.point.toNat - d.digits.length := by
        omega
      have hlast : ∀ v, Nat.ofDigitChars 10 ['0'] v = v * 10 := by
        intro v
        simp [Nat.ofDigitChars_cons, Nat.mul_comm]
      rw [hlength, hscale, Nat.pow_zero, Nat.mul_one, Nat.ofDigitChars_append,
        Nat.ofDigitChars_append, Nat.ofDigitChars_replicate_zero, hlast,
        Nat.mul_comm (10 ^ _)]
      rfl

theorem isReal_positional (hd : d.IsProper) : IsReal negative (d.positional ['.', '0']) := by
  obtain ⟨w, f, hlayout, hw, hne, hf, -, -⟩ := positional_point hd
  rw [hlayout]
  exact isReal_point hw hne hf

theorem isReal_scientific (hd : d.IsProper) : IsReal negative d.scientific := by
  have hw := isCanonical_take hd Nat.one_pos
  have hsign : (if d.point - 1 < 0 then '-' else '+') =
      if decide (d.point - 1 < 0) then '-' else '+' := by
    simp
  unfold Decimal.scientific
  simp only [hsign]
  by_cases hlength : d.digits.length ≤ 1
  · rw [if_pos hlength, List.append_nil]
    exact isReal_exponent hw _ _
  · rw [if_neg hlength, List.append_assoc]
    refine isReal_point_exponent hw ?_ (fun c hc => hd.all c (List.mem_of_mem_drop hc)) _ _
    simp only [ne_eq, List.drop_eq_nil_iff]
    exact hlength

theorem number?_signed {cs : List Char} {e : Datum} (h : unsigned? negative cs = some e) :
    number? (Binary64.signed negative cs) = some e := by
  cases negative with
  | true => exact h
  | false =>
    obtain ⟨c, rest, rfl, hc⟩ := head_of_unsigned? h
    unfold Binary64.signed number?
    split
    · simp_all
    · exact h

/-- The text of a finite double is that of a double, or of a number too large for one. -/
theorem number?_document {x : Binary64} (hx : x.isFinite) :
    ∃ y : Option Binary64, number? x.document = some (y.elim .unreadable .real) := by
  cases x with
  | nan => simp [Binary64.isFinite] at hx
  | infinity negative => simp [Binary64.isFinite] at hx
  | finite negative r =>
    suffices h : IsReal negative (if r.val = 0 then ['0', '.', '0'] else
        let d := Binary64.shortest negative r
        if -5 < d.point ∧ d.point ≤ 16 then d.positional ['.', '0'] else d.scientific) by
      obtain ⟨y, hy⟩ := h
      exact ⟨y, number?_signed hy⟩
    by_cases hr : r.val = 0
    · rw [if_pos hr]
      exact isReal_point (w := ['0']) rfl (by simp) (List.forall_mem_singleton.2 rfl)
    · obtain ⟨m, e, hshortest, hreads⟩ := Binary64.shortest_reads negative hr
      have hproper := Decimal.isProper_of hreads.pos e
      simp only [if_neg hr, hshortest]
      split_ifs
      · exact isReal_positional hproper
      · exact isReal_scientific hproper

/-- A document has no number for a double that is not finite. -/
theorem document_of_not_isFinite {x : Binary64} (hx : ¬ x.isFinite) :
    x.document = ['n', 'u', 'l', 'l'] := by
  cases x with
  | finite => simp [Binary64.isFinite] at hx
  | _ => rfl

end Json

end CameraFleet
