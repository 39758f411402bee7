import CameraFleet.Proofs.Datum.Record
import CameraFleet.Proofs.Json.Number

/-!
# Literals

The texts that are numbers in JSON are the literals (`number?_isSome_iff`): a sign, a whole part
without leading zeros, a fraction and an exponent. One number has many of them. Only a plain
literal, which has the whole part alone, is read as a whole number of 32 bits
(`Literal.uint32?_datum`); any other spelling of such a number is read as a double.
-/

namespace CameraFleet.Json

namespace Digits

variable {v w : Nat} {c : Char} {cs : List Char}

theorem push?_eq_some_iff :
    push? v c = some w ↔ w = 10 * v + (c.toNat - '0'.toNat) ∧ w < 2 ^ 64 := by
  have hsize : UInt64.size = 2 ^ 64 := rfl
  unfold push?
  simp only [Nat.mul_comm v, hsize]
  split_ifs with h
  · rw [Option.some.injEq]
    exact ⟨fun heq => ⟨heq.symm, heq ▸ h⟩, fun ⟨heq, _⟩ => heq.symm⟩
  · exact iff_of_false nofun fun ⟨heq, hw⟩ => h (heq ▸ hw)

/-- The digits that count and the number of the others enclose the number that all of them make. -/
theorem whole_bounds (hv : v < 2 ^ 64) (cs : List Char) : (whole v cs).value < 2 ^ 64 ∧
    ∃ s : Nat, (whole v cs).scale = s ∧
      (whole v cs).value * 10 ^ s ≤ Nat.ofDigitChars 10 cs v ∧
      (s = 0 → (whole v cs).value = Nat.ofDigitChars 10 cs v) ∧
      (s ≠ 0 → 2 ^ 64 * 10 ^ (s - 1) ≤ Nat.ofDigitChars 10 cs v) := by
  induction cs generalizing v with
  | nil => exact ⟨hv, 0, rfl, by simp [whole], fun _ => rfl, fun h => absurd rfl h⟩
  | cons c cs ih =>
    rw [whole, Nat.ofDigitChars_cons]
    rcases hpush : push? v c with _ | next
    · have hlarge : 2 ^ 64 ≤ 10 * v + (c.toNat - '0'.toNat) := by
        refine Nat.le_of_not_lt fun hlt => ?_
        rw [push?_eq_some_iff.2 ⟨rfl, hlt⟩] at hpush
        exact absurd hpush (Option.some_ne_none _)
      have hten : 10 ^ cs.length * (10 * v + (c.toNat - '0'.toNat)) ≤
          Nat.ofDigitChars 10 cs (10 * v + (c.toNat - '0'.toNat)) := by
        rw [Nat.ofDigitChars_eq_ofDigitChars_zero (l := cs)]
        exact Nat.le_add_right _ _
      refine ⟨hv, cs.length + 1, rfl, ?_, fun h => absurd h (Nat.succ_ne_zero _), fun _ => ?_⟩
      · have hfirst : v * 10 ^ (cs.length + 1) = 10 ^ cs.length * (10 * v) := by
          rw [Nat.pow_succ]
          ac_rfl
        exact (hfirst.trans_le (Nat.mul_le_mul_left _ (Nat.le_add_right _ _))).trans hten
      · refine le_trans ?_ hten
        rw [Nat.add_sub_cancel, Nat.mul_comm]
        exact Nat.mul_le_mul_left _ hlarge
    · obtain ⟨rfl, hnext⟩ := push?_eq_some_iff.1 hpush
      exact ih hnext

end Digits

/-- Digits, of which there is at least one. -/
structure Numeral where
  chars : List Char
  ne_nil : chars ≠ []
  all : ∀ c ∈ chars, c.isDigit = true

def Numeral.value (r : Numeral) : Nat :=
  Nat.ofDigitChars 10 r.chars 0

theorem Numeral.ofDigits?_chars (r : Numeral) : Natural.ofDigits? r.chars = some r.value :=
  if_pos ⟨r.ne_nil, List.all_eq_true.2 r.all⟩

/-- The exponent of a literal as it is written. -/
structure Exponent where
  mark : Char
  sign : Option Char
  size : Numeral
  mark_eq : mark = 'e' ∨ mark = 'E'
  sign_eq : ∀ c ∈ sign, c = '-' ∨ c = '+'

namespace Exponent

def down (e : Exponent) : Bool :=
  e.sign = some '-'

def value (e : Exponent) : Int :=
  if e.down then -e.size.value else e.size.value

def text (e : Exponent) : List Char :=
  e.mark :: (e.sign.toList ++ e.size.chars)

theorem exponent?_tail (e : Exponent) :
    exponent? (e.sign.toList ++ e.size.chars) = some (e.down, e.size.value) := by
  rcases hsign : e.sign with _ | c
  · obtain ⟨c, cs, hchars⟩ := List.exists_cons_of_ne_nil e.size.ne_nil
    have hdigit := e.size.all c (hchars ▸ List.mem_cons_self)
    have hminus : c ≠ '-' := by
      rintro rfl
      exact absurd hdigit (by decide)
    have hplus : c ≠ '+' := by
      rintro rfl
      exact absurd hdigit (by decide)
    have hvalue := e.size.ofDigits?_chars
    rw [hchars] at hvalue
    simp [exponent?, hchars, hminus, hplus, hvalue, down, hsign]
  · rcases e.sign_eq c hsign with rfl | rfl <;>
      simp [exponent?, e.size.ofDigits?_chars, down, hsign]

end Exponent

/-- A number as it is written. -/
structure Literal where
  negative : Bool
  whole : List Char
  fraction : Option Numeral
  exponent : Option Exponent
  isCanonical_whole : Natural.isCanonical whole = true

namespace Literal

/-- The plain zero. -/
def zero : Literal := ⟨false, ['0'], none, none, rfl⟩

variable (n : Literal)

/-- The digits behind the point. -/
def places : List Char :=
  n.fraction.elim [] Numeral.chars

/-- The text behind the sign. -/
def body : List Char :=
  n.whole ++ (n.fraction.elim [] ('.' :: ·.chars) ++ n.exponent.elim [] Exponent.text)

def text : List Char :=
  Binary64.signed n.negative n.body

/-- The number that all digits make. -/
def mantissa : Nat :=
  Nat.ofDigitChars 10 (n.whole ++ n.places) 0

/-- The power of ten for the mantissa. -/
def scale : Int :=
  n.exponent.elim 0 Exponent.value - n.places.length

/-- The number that is written. -/
def value : ℚ :=
  (if n.negative then -1 else 1) * n.mantissa * 10 ^ n.scale

/-- The literal has neither sign nor point nor exponent. -/
def IsPlain : Prop :=
  n.negative = false ∧ n.fraction = none ∧ n.exponent = none

instance : Decidable n.IsPlain :=
  inferInstanceAs (Decidable (_ ∧ _ ∧ _))

/-- The digits that count. -/
def digits : Digits :=
  (Digits.whole 0 n.whole).withFraction n.places

/-- The double that the digits are scaled to. -/
def double? : Option Binary64 :=
  match n.exponent with
  | none => real? n.negative n.digits.value n.digits.scale
  | some e => scaled? n.negative n.digits e.down e.size.value

/-- What the literal is read as. -/
def datum : Datum :=
  if n.fraction = none ∧ n.exponent = none then wholeNumber n.negative n.digits
  else n.double?.elim .unreadable .real

/-! ## Reading a literal -/

variable {n}

theorem unsigned?_body (n : Literal) : unsigned? n.negative n.body = some n.datum := by
  obtain ⟨negative, whole, fraction, exponent, hwhole⟩ := n
  have hall := isDigit_of_isCanonical hwhole
  have hshape := shape_of_isCanonical hwhole
  have hmark : ∀ e : Exponent, e.mark.isDigit = false ∧ e.mark ≠ '.' := fun e => by
    rcases e.mark_eq with hmark | hmark <;> rw [hmark] <;> decide
  rcases fraction with _ | f <;> rcases exponent with _ | e
  · have htake := List.takeWhile_eq_self_iff.2 hall
    have hdrop := List.dropWhile_eq_nil_iff.2 hall
    simp [unsigned?, body, datum, digits, places, Digits.withFraction, htake, hdrop, hshape]
  · obtain ⟨htake, hdrop⟩ := run_digits hall (hmark e).1 (e.sign.toList ++ e.size.chars)
    simp [unsigned?, body, Exponent.text, datum, double?, digits, places, Digits.withFraction,
      htake, hdrop, hshape, (hmark e).2, e.mark_eq, e.exponent?_tail]
  · have hread := unsigned?_point negative hwhole f.ne_nil f.all
    simpa [body, datum, double?, digits, places] using hread
  · obtain ⟨htake, hdrop⟩ := run_digits hall (c := '.') rfl (f.chars ++ e.text)
    obtain ⟨htake', hdrop'⟩ := run_digits f.all (hmark e).1 (e.sign.toList ++ e.size.chars)
    simp only [Exponent.text] at htake hdrop
    simp [unsigned?, body, Exponent.text, datum, double?, digits, places, htake, hdrop, htake',
      hdrop', hshape, f.ne_nil, e.mark_eq, e.exponent?_tail]

theorem number?_text (n : Literal) : number? n.text = some n.datum :=
  number?_signed n.unsigned?_body

theorem value_of_isPlain (h : n.IsPlain) : n.value = Nat.ofDigitChars 10 n.whole 0 := by
  obtain ⟨hsign, hfraction, hexponent⟩ := h
  simp [value, mantissa, scale, places, hsign, hfraction, hexponent]

/-- A literal is read as an integer, which is negative if the literal is not plain, or as a double,
which a plain literal is only if its digits do not fit. -/
theorem datum_cases (n : Literal) :
    (∃ m : Int, n.datum = .integer m ∧ (n.IsPlain → m = Nat.ofDigitChars 10 n.whole 0) ∧
      (¬ n.IsPlain → m < 0)) ∨
    (n.datum = n.double?.elim .unreadable .real ∧
      (n.IsPlain → 2 ^ 64 ≤ Nat.ofDigitChars 10 n.whole 0)) := by
  obtain ⟨-, s, hscale, -, hexact, hlarge⟩ := Digits.whole_bounds (v := 0) (by decide) n.whole
  unfold datum
  by_cases hshape : n.fraction = none ∧ n.exponent = none
  · have hdigits : n.digits = Digits.whole 0 n.whole := by
      simp [digits, places, Digits.withFraction, hshape.1]
    have hdouble : n.double? = real? n.negative n.digits.value n.digits.scale := by
      simp [double?, hshape.2]
    rw [if_pos hshape, wholeNumber, hdouble, hdigits, hscale]
    split_ifs with hpositive hnegative
    · rw [hexact (by omega)]
      exact Or.inl ⟨_, rfl, fun _ => rfl, fun h => absurd ⟨hpositive.2, hshape⟩ h⟩
    · refine Or.inl ⟨_, rfl, fun h => ?_, fun _ => by omega⟩
      exact absurd ⟨hnegative.1, h.1⟩ hpositive
    · refine Or.inr ⟨rfl, fun h => ?_⟩
      have hs : s ≠ 0 := fun hs => hpositive ⟨by omega, h.1⟩
      have hpow := Nat.le_mul_of_pos_right (2 ^ 64)
        (Nat.pow_pos (n := s - 1) (show 0 < 10 by decide))
      exact hpow.trans (hlarge hs)
  · rw [if_neg hshape]
    exact Or.inr ⟨rfl, fun h => absurd h.2 hshape⟩

theorem datum_ne_null (n : Literal) : n.datum ≠ .null := by
  rcases n.datum_cases with ⟨m, hdatum, -⟩ | ⟨hdatum, -⟩ <;> rw [hdatum]
  · nofun
  · cases n.double? <;> nofun

theorem uint32?_integer_iff {m : Int} {k : UInt32} :
    (Datum.integer m).uint32? = some k ↔ m = k.toNat := by
  constructor
  · intro h
    obtain ⟨v, hv, rfl⟩ := Option.map_eq_some_iff.1 h
    simp only [Datum.word?] at hv
    split_ifs at hv with hword
    obtain rfl := Option.some.inj hv
    rw [UInt32.toNat_ofNat_of_lt' hword.2, Int.toNat_of_nonneg hword.1]
  · rintro rfl
    exact Datum.uint32?_toNat k

/-- Only a plain literal is read as a whole number of 32 bits, and only as the one it writes. -/
theorem uint32?_datum {k : UInt32} :
    n.datum.uint32? = some k ↔ n.IsPlain ∧ n.value = k.toNat := by
  have hreal : (n.double?.elim .unreadable .real : Datum).uint32? = none := by
    cases n.double? <;> rfl
  rcases n.datum_cases with ⟨m, hdatum, hplain, hsigned⟩ | ⟨hdatum, hlarge⟩
  · rw [hdatum, uint32?_integer_iff]
    by_cases h : n.IsPlain
    · rw [hplain h, and_iff_right h, value_of_isPlain h, Nat.cast_inj, Nat.cast_inj]
    · have := hsigned h
      exact iff_of_false (by omega) fun h' => h h'.1
  · rw [hdatum, hreal]
    refine iff_of_false nofun fun ⟨h, hvalue⟩ => ?_
    rw [value_of_isPlain h, Nat.cast_inj] at hvalue
    have := k.toNat_lt
    have := hlarge h
    omega

end Literal

/-! ## Finding the literal -/

theorem isCanonical_of_shape {cs : List Char} (hall : ∀ c ∈ cs, c.isDigit = true)
    (h : ¬ (cs = [] ∨ (cs.head? = some '0' ∧ cs ≠ ['0']))) : Natural.isCanonical cs = true := by
  obtain ⟨hne, hzero⟩ := not_or.1 h
  by_cases hhead : cs.head? = some '0'
  · obtain rfl : cs = ['0'] := not_not.1 fun hother => hzero ⟨hhead, hother⟩
    rfl
  · exact isCanonical_of_proper hne hhead hall

theorem exists_numeral {cs : List Char} {v : Nat} (h : Natural.ofDigits? cs = some v) :
    ∃ r : Numeral, r.chars = cs := by
  have hall := all_isDigit_of_ofDigits? h
  unfold Natural.ofDigits? at h
  split_ifs at h with hcs
  exact ⟨⟨cs, hcs.1, hall⟩, rfl⟩

theorem exists_exponent {c : Char} {cs : List Char} {e : Bool × Nat} (hc : c = 'e' ∨ c = 'E')
    (h : exponent? cs = some e) : ∃ x : Exponent, x.text = c :: cs := by
  unfold exponent? at h
  split at h
  · obtain ⟨v, hv, -⟩ := Option.map_eq_some_iff.1 h
    obtain ⟨r, rfl⟩ := exists_numeral hv
    exact ⟨⟨c, some '-', r, hc, by simp⟩, rfl⟩
  · obtain ⟨v, hv, -⟩ := Option.map_eq_some_iff.1 h
    obtain ⟨r, rfl⟩ := exists_numeral hv
    exact ⟨⟨c, some '+', r, hc, by simp⟩, rfl⟩
  · obtain ⟨v, hv, -⟩ := Option.map_eq_some_iff.1 h
    obtain ⟨r, rfl⟩ := exists_numeral hv
    exact ⟨⟨c, none, r, hc, by simp⟩, rfl⟩

/-- What stands behind the digits of a number is an exponent or nothing. -/
theorem exists_exponent_of_behind {cs : List Char} {whole : Option Datum}
    {scaled : Bool × Nat → Option Datum} {d : Datum}
    (h : (match cs with
      | [] => whole
      | c :: rest => if c = 'e' ∨ c = 'E' then (exponent? rest).bind scaled else none) = some d) :
    ∃ x : Option Exponent, x.elim [] Exponent.text = cs := by
  rcases cs with _ | ⟨c, rest⟩
  · exact ⟨none, rfl⟩
  simp only at h
  split_ifs at h with hc
  obtain ⟨e, he, -⟩ := Option.bind_eq_some_iff.1 h
  obtain ⟨x, hx⟩ := exists_exponent hc he
  exact ⟨some x, hx⟩

theorem exists_body {negative : Bool} {cs : List Char} {d : Datum}
    (h : unsigned? negative cs = some d) : ∃ n : Literal, n.negative = negative ∧ n.body = cs := by
  have hrun : ∀ cs : List Char, ∀ c ∈ cs.takeWhile Char.isDigit, c.isDigit = true :=
    fun cs c hc => List.mem_takeWhile_imp hc
  unfold unsigned? at h
  simp only at h
  split_ifs at h with hshape
  · simp at h
  have hwhole := isCanonical_of_shape (hrun cs) hshape
  split at h
  · rename_i rest hdrop
    split_ifs at h with hfraction
    · simp at h
    obtain ⟨x, hx⟩ := exists_exponent_of_behind h
    refine ⟨⟨negative, _, some ⟨_, hfraction, hrun rest⟩, x, hwhole⟩, rfl, ?_⟩
    rw [Literal.body, hx, Option.elim_some, List.cons_append, List.takeWhile_append_dropWhile,
      ← hdrop, List.takeWhile_append_dropWhile]
  · obtain ⟨x, hx⟩ := exists_exponent_of_behind h
    refine ⟨⟨negative, _, none, x, hwhole⟩, rfl, ?_⟩
    rw [Literal.body, hx, Option.elim_none, List.nil_append, List.takeWhile_append_dropWhile]

/-- A text is a number just when it is a literal. -/
theorem number?_isSome_iff {cs : List Char} :
    (number? cs).isSome ↔ ∃ n : Literal, n.text = cs := by
  constructor
  · intro h
    obtain ⟨d, hd⟩ := Option.isSome_iff_exists.1 h
    unfold number? at hd
    split at hd
    · obtain ⟨n, hsign, rfl⟩ := exists_body hd
      exact ⟨n, by rw [Literal.text, hsign]; rfl⟩
    · obtain ⟨n, hsign, rfl⟩ := exists_body hd
      exact ⟨n, by rw [Literal.text, hsign]; rfl⟩
  · rintro ⟨n, rfl⟩
    rw [n.number?_text]
    rfl

end CameraFleet.Json
