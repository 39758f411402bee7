import Mathlib
import CameraFleet.Json.Reader
import CameraFleet.Json.Writer
import CameraFleet.Proofs.Number.Decimal

/-!
# Scanning what is written

The text of a value is cut into the tokens of the value again (`scanFrom_compact`), whatever
follows it, as long as that goes on with no digit, letter or sign. Texts are read back character
by character (`scanText_quoted`), and integers of 64 bits digit by digit (`number?_intText`).
-/

namespace CameraFleet.Json

open Utf8 (Symbol)

/-! ## Texts -/

namespace Token

theorem hex4?_control {n : Nat} (h : n < 0x20) (rest : List Symbol) :
    hex4? (some '0' :: some '0' :: some (Text.hexDigit (n / 16)) ::
      some (Text.hexDigit (n % 16)) :: rest) = some (n, rest) := by
  have h0 : Text.hexDigit? '0' = some 0 := by decide
  simp only [hex4?, h0, Text.hexDigit?_hexDigit (n / 16) (by omega),
    Text.hexDigit?_hexDigit (n % 16) (by omega), Option.bind_eq_bind, Option.bind_some,
    Option.pure_def]
  congr 2
  omega

theorem scanText_escape {e c : Char} (he : escape? e = some c) (hu : e ≠ 'u')
    (found : Option (List Char)) (rest : List Symbol) :
    scanText found (some '\\' :: some e :: rest) = scanText (found.map (c :: ·)) rest := by
  rw [scanText]
  · simp only [he]
  · exact hu

theorem scanText_unit {n : Nat} (hn : n < 0xD800) {s rest : List Symbol}
    (h : hex4? s = some (n, rest)) (found : Option (List Char)) :
    scanText found (some '\\' :: some 'u' :: s) =
      scanText (found.map (Char.ofNat n :: ·)) rest := by
  rw [scanText]
  split
  · rename_i he
    rw [h] at he
    simp at he
  · rename_i m rest' he
    rw [h] at he
    simp only [Option.some.injEq, Prod.mk.injEq] at he
    obtain ⟨rfl, rfl⟩ := he
    rw [if_neg (by omega), if_neg (by omega)]

theorem scanText_plain {c : Char} (hq : c ≠ '\x22') (hb : c ≠ '\\') (hc : ¬ c.toNat < 0x20)
    (found : Option (List Char)) (rest : List Symbol) :
    scanText found (some c :: rest) = scanText (found.map (c :: ·)) rest := by
  rw [scanText]
  · rw [if_neg hc]
  all_goals
    intros
    simp_all

theorem scanText_escape_char (c : Char) (found : Option (List Char)) (rest : List Symbol) :
    scanText found ((escape c).map some ++ rest) = scanText (found.map (c :: ·)) rest := by
  unfold escape
  split_ifs with h1 h2 h3 h4 h5 h6 h7 h8
  · subst h1; exact scanText_escape rfl (by decide) found rest
  · subst h2; exact scanText_escape rfl (by decide) found rest
  · subst h3; exact scanText_escape rfl (by decide) found rest
  · subst h4; exact scanText_escape rfl (by decide) found rest
  · subst h5; exact scanText_escape rfl (by decide) found rest
  · subst h6; exact scanText_escape rfl (by decide) found rest
  · subst h7; exact scanText_escape rfl (by decide) found rest
  · have hscan := scanText_unit (by omega) (hex4?_control h8 rest) found
    rw [Char.ofNat_toNat] at hscan
    exact hscan
  · exact scanText_plain h1 h2 h8 found rest

theorem scanText_escaped : ∀ (cs acc : List Char) (rest : List Symbol),
    scanText (some acc) ((cs.flatMap escape).map some ++ some '\x22' :: rest) =
      some (some (String.ofList (acc.reverse ++ cs)), rest)
  | [], acc, rest => by
    rw [List.flatMap_nil, List.map_nil, List.nil_append, scanText, List.append_nil]
    rfl
  | c :: cs, acc, rest => by
    rw [List.flatMap_cons, List.map_append, List.append_assoc, scanText_escape_char,
      Option.map_some, scanText_escaped cs (c :: acc) rest, List.reverse_cons, List.append_assoc]
    rfl

end Token

/-! ## Numbers -/

open Token (inNumber)

theorem Token.inNumber_of_isDigit {c : Char} (h : c.isDigit = true) : inNumber (some c) = true := by
  simp [inNumber, h]

theorem all_isDigit_of_ofDigits? {cs : List Char} {n : Nat} (h : Natural.ofDigits? cs = some n) :
    ∀ c ∈ cs, c.isDigit = true := by
  unfold Natural.ofDigits? at h
  split_ifs at h with hcs
  exact List.all_eq_true.1 hcs.2

theorem inNumber_of_exponent? {cs : List Char} {e : Bool × Nat} (h : exponent? cs = some e) :
    ∀ c ∈ cs, inNumber (some c) = true := by
  have hdigits : ∀ {cs : List Char} {down : Bool},
      (Natural.ofDigits? cs).map (down, ·) = some e → ∀ c ∈ cs, inNumber (some c) = true := by
    intro cs down h c hc
    obtain ⟨n, hn, -⟩ := Option.map_eq_some_iff.1 h
    exact Token.inNumber_of_isDigit (all_isDigit_of_ofDigits? hn c hc)
  unfold exponent? at h
  split at h
  · exact List.forall_mem_cons.2 ⟨by decide, hdigits h⟩
  · exact List.forall_mem_cons.2 ⟨by decide, hdigits h⟩
  · exact hdigits h

theorem inNumber_of_behind {cs : List Char} {whole : Option Datum}
    {scaled : Bool × Nat → Option Datum} {d : Datum}
    (h : (match cs with
      | [] => whole
      | c :: rest => if c = 'e' ∨ c = 'E' then (exponent? rest).bind scaled else none) = some d) :
    ∀ c ∈ cs, inNumber (some c) = true := by
  rcases cs with _ | ⟨e, rest⟩
  · exact List.forall_mem_nil _
  simp only at h
  split_ifs at h with he
  obtain ⟨x, hx, -⟩ := Option.bind_eq_some_iff.1 h
  refine List.forall_mem_cons.2 ⟨?_, inNumber_of_exponent? hx⟩
  rcases he with rfl | rfl
  · decide
  · decide

theorem inNumber_of_unsigned? {negative : Bool} {cs : List Char} {d : Datum}
    (h : unsigned? negative cs = some d) : ∀ c ∈ cs, inNumber (some c) = true := by
  have hrun : ∀ cs : List Char, ∀ c ∈ cs.takeWhile Char.isDigit, inNumber (some c) = true :=
    fun cs c hc => Token.inNumber_of_isDigit (List.mem_takeWhile_imp hc)
  unfold unsigned? at h
  simp only at h
  split_ifs at h
  · simp at h
  rw [← List.takeWhile_append_dropWhile (p := Char.isDigit) (l := cs), List.forall_mem_append]
  refine ⟨hrun cs, ?_⟩
  split at h
  · rename_i rest hdrop
    rw [hdrop, List.forall_mem_cons]
    refine ⟨by decide, ?_⟩
    split_ifs at h
    · simp at h
    rw [← List.takeWhile_append_dropWhile (p := Char.isDigit) (l := rest), List.forall_mem_append]
    exact ⟨hrun rest, inNumber_of_behind h⟩
  · exact inNumber_of_behind h

theorem head_of_unsigned? {negative : Bool} {cs : List Char} {d : Datum}
    (h : unsigned? negative cs = some d) : ∃ c rest, cs = c :: rest ∧ c.isDigit = true := by
  unfold unsigned? at h
  simp only at h
  split_ifs at h with hshape
  · simp at h
  rcases cs with _ | ⟨c, rest⟩
  · simp at hshape
  · rw [List.takeWhile_cons] at hshape
    split_ifs at hshape with hc
    · exact ⟨c, rest, rfl, hc⟩
    · simp at hshape

/-- A number is made of the characters of numbers, and begins with a sign or a digit. -/
theorem shape_of_number? {cs : List Char} {d : Datum} (h : number? cs = some d) :
    ∃ c rest, cs = c :: rest ∧ (c = '-' ∨ c.isDigit = true) ∧
      ∀ c ∈ rest, inNumber (some c) = true := by
  unfold number? at h
  split at h
  · rename_i rest
    exact ⟨'-', rest, rfl, Or.inl rfl, inNumber_of_unsigned? h⟩
  · obtain ⟨c, rest, rfl, hc⟩ := head_of_unsigned? h
    exact ⟨c, rest, rfl, Or.inr hc, (List.forall_mem_cons.1 (inNumber_of_unsigned? h)).2⟩

theorem le_ofDigitChars (cs : List Char) (v : Nat) : v ≤ Nat.ofDigitChars 10 cs v := by
  rw [Nat.ofDigitChars_eq_ofDigitChars_zero]
  have := Nat.le_mul_of_pos_left v (Nat.pow_pos (n := cs.length) (show 0 < 10 by decide))
  omega

theorem Digits.push?_eq {v : Nat} {c : Char} {cs : List Char}
    (h : Nat.ofDigitChars 10 (c :: cs) v < 2 ^ 64) :
    push? v c = some (10 * v + (c.toNat - '0'.toNat)) := by
  rw [Nat.ofDigitChars_cons] at h
  unfold push?
  simp only [Nat.mul_comm v]
  exact if_pos (Nat.lt_of_le_of_lt (le_ofDigitChars cs _) h)

theorem Digits.whole_eq {cs : List Char} {v : Nat} (h : Nat.ofDigitChars 10 cs v < 2 ^ 64) :
    Digits.whole v cs = ⟨Nat.ofDigitChars 10 cs v, 0⟩ := by
  induction cs generalizing v with
  | nil => rfl
  | cons c cs ih =>
    rw [Digits.whole, Digits.push?_eq h]
    rw [Nat.ofDigitChars_cons] at h ⊢
    exact ih h

theorem Digits.withFraction_eq {cs : List Char} {d : Digits}
    (h : Nat.ofDigitChars 10 cs d.value < 2 ^ 64) :
    d.withFraction cs = ⟨Nat.ofDigitChars 10 cs d.value, d.scale - cs.length⟩ := by
  induction cs generalizing d with
  | nil => simp [Digits.withFraction]
  | cons c cs ih =>
    rw [Digits.withFraction, Digits.push?_eq h]
    rw [Nat.ofDigitChars_cons] at h ⊢
    have hrest := @ih ⟨10 * d.value + (c.toNat - '0'.toNat), d.scale - 1⟩ h
    simp only [hrest, List.length_cons, Digits.mk.injEq, true_and]
    omega

theorem unsigned?_digits (negative : Bool) {n : Nat} (h : n < 2 ^ 64) :
    unsigned? negative (Natural.digits n) = some (wholeNumber negative ⟨n, 0⟩) := by
  have hall : ∀ c ∈ Natural.digits n, c.isDigit = true := fun _ => Natural.isDigit_of_mem_digits
  have htake := List.takeWhile_eq_self_iff.2 hall
  have hdrop := List.dropWhile_eq_nil_iff.2 hall
  have hshape : ¬ (Natural.digits n = [] ∨
      (Natural.digits n).head? = some '0' ∧ Natural.digits n ≠ ['0']) := by
    rintro (hnil | ⟨hhead, hne⟩)
    · exact Natural.digits_ne_nil n hnil
    · rcases Nat.eq_zero_or_pos n with rfl | hn
      · exact hne rfl
      · exact Natural.head?_digits_ne_zero hn hhead
  have hwhole : Digits.whole 0 (Natural.digits n) = ⟨n, 0⟩ := by
    rw [Digits.whole_eq (by rwa [Natural.ofDigitChars_digits]), Natural.ofDigitChars_digits]
  unfold unsigned?
  simp only [htake, hdrop, if_neg hshape, hwhole]
  rfl

/-- An integer of 64 bits, with a sign or without one, is read back from its text. -/
theorem number?_intText {n : Int} (hlow : -2 ^ 63 ≤ n) (hhigh : n < 2 ^ 64) :
    number? (Natural.intText n).toList = some (.integer n) := by
  unfold Natural.intText
  rw [String.toList_ofList]
  split_ifs with hn
  · have hneg : (n.natAbs : Int) = -n := by omega
    rw [number?, unsigned?_digits true (by omega), wholeNumber, if_neg (by simp),
      if_pos ⟨rfl, show 0 < n.natAbs by omega, show n.natAbs ≤ 0x8000000000000000 by omega⟩,
      hneg, Int.neg_neg]
  · have hminus : ∀ cs, Natural.digits n.natAbs = '-' :: cs → False := by
      intro cs hcs
      have hd : Char.isDigit '-' = true :=
        Natural.isDigit_of_mem_digits (hcs ▸ List.mem_cons_self)
      exact absurd hd (by decide)
    have hself : (n.natAbs : Int) = n := by omega
    rw [number?, unsigned?_digits false (by omega), wholeNumber, if_pos ⟨rfl, rfl⟩, hself]
    exact hminus

/-! ## Tokens -/

open Token

/-- Nothing goes on here that a number or a word could run into. -/
def Ends (rest : List Symbol) : Prop :=
  ∀ s, rest.head? = some s → inNumber s = false ∧ inWord s = false

theorem ends_nil : Ends [] := by
  intro s hs
  simp at hs

theorem ends_cons {c : Char} (hnumber : inNumber (some c) = false) (hword : inWord (some c) = false)
    (rest : List Symbol) : Ends (some c :: rest) := by
  rintro s ⟨⟩
  exact ⟨hnumber, hword⟩

/-- A run of characters ends where the next one is of another kind. -/
theorem takeWhile_symbols {p : Symbol → Bool} {cs : List Char} {rest : List Symbol}
    (hcs : ∀ c ∈ cs, p (some c) = true) (hrest : ∀ s, rest.head? = some s → p s = false) :
    ((cs.map some ++ rest).takeWhile p).filterMap id = cs ∧
      (cs.map some ++ rest).dropWhile p = rest := by
  have hall : ∀ s ∈ cs.map some, p s = true := by
    intro s hs
    obtain ⟨c, hc, rfl⟩ := List.mem_map.1 hs
    exact hcs c hc
  rw [List.takeWhile_append_of_pos hall, List.dropWhile_append_of_pos hall]
  rcases rest with _ | ⟨s, rest⟩
  · simp
  · have hs := hrest s rfl
    simp [hs]

theorem scanFrom_quote (found : List Token) (s : List Symbol) :
    scanFrom found (some '\x22' :: s) =
      (scanText (some []) s).bind fun r => scanFrom (.text r.1 :: found) r.2 := by
  rw [scanFrom, if_neg (by decide)]
  simp only [show punctuation? '\x22' = none from rfl, if_pos]
  split <;> simp only [*, Option.bind_some, Option.bind_none]

/-- The characters are cut into the tokens, whatever stood before them and follows. -/
def Cuts (cs : List Char) (ts : List Token) : Prop :=
  ∀ found rest, Ends rest →
    scanFrom found (cs.map some ++ rest) = scanFrom (ts.reverse ++ found) rest

namespace Cuts

variable {cs cs' : List Char} {ts ts' : List Token} {c : Char} {t : Token}

theorem nil : Cuts [] [] := by
  intro found rest _
  rfl

theorem scan?_eq (h : Cuts cs ts) : scan? (cs.map some) = some ts := by
  have hscan := h [] [] ends_nil
  rw [List.append_nil, List.append_nil] at hscan
  rw [scan?, hscan, scanFrom, Option.map_some, List.reverse_reverse]

theorem punctuation (ht : punctuation? c = some t) (h : Cuts cs ts) :
    Cuts (c :: cs) (t :: ts) := by
  have hblank : isBlank c = false := by
    unfold punctuation? at ht
    split at ht <;> first | rfl | simp at ht
  intro found rest hrest
  rw [List.map_cons, List.cons_append, scanFrom, if_neg (by simp [hblank])]
  simp only [ht]
  rw [h _ _ hrest, List.reverse_cons, List.append_assoc]
  rfl

/-- What is cut apart from a punctuation mark on is cut into the tokens of both parts. -/
theorem append (ht : punctuation? c = some t) (h : Cuts cs ts) (h' : Cuts cs' ts') :
    Cuts (cs ++ c :: cs') (ts ++ t :: ts') := by
  have hnumber : inNumber (some c) = false := by
    unfold punctuation? at ht
    split at ht <;> first | rfl | simp at ht
  have hword : inWord (some c) = false := by
    unfold punctuation? at ht
    split at ht <;> first | rfl | simp at ht
  intro found rest hrest
  have hrest' : Ends ((c :: cs').map some ++ rest) := ends_cons hnumber hword _
  rw [List.map_append, List.append_assoc, h found _ hrest', punctuation ht h' _ _ hrest,
    List.reverse_append, List.append_assoc]

theorem quoted (s : String) (h : Cuts cs ts) :
    Cuts (quoted s ++ cs) (.text (some s) :: ts) := by
  intro found rest hrest
  have hscan := scanText_escaped s.toList [] (cs.map some ++ rest)
  rw [List.reverse_nil, List.nil_append, String.ofList_toList] at hscan
  have hchars : (Json.quoted s ++ cs).map some ++ rest = some '\x22' ::
      ((s.toList.flatMap escape).map some ++ some '\x22' :: (cs.map some ++ rest)) := by
    simp [Json.quoted]
  rw [hchars, scanFrom_quote, hscan, Option.bind_some, h _ _ hrest, List.reverse_cons,
    List.append_assoc]
  rfl

theorem number {d : Datum} (h : number? cs = some d) : Cuts cs [.scalar d] := by
  obtain ⟨c, cs, rfl, hc, hcs⟩ := shape_of_number? h
  obtain ⟨hblank, hmark, hquote⟩ :
      isBlank c = false ∧ punctuation? c = none ∧ c ≠ '\x22' := by
    rcases hc with rfl | hdigit
    · decide
    · exact Natural.of_isDigit hdigit (by decide)
  intro found rest hrest
  obtain ⟨htake, hdrop⟩ := takeWhile_symbols hcs fun s hs => (hrest s hs).1
  rw [List.map_cons, List.cons_append, scanFrom, if_neg (by simp [hblank])]
  simp only [hmark]
  rw [if_neg hquote, if_pos hc, htake, hdrop, h]
  rfl

theorem word {d : Datum} (h : word? cs = some (.scalar d)) : Cuts cs [.scalar d] := by
  obtain ⟨c, cs, rfl, ⟨hblank, hmark, hquote, hnumber⟩, hcs⟩ : ∃ c rest, cs = c :: rest ∧
      (isBlank c = false ∧ punctuation? c = none ∧ c ≠ '\x22' ∧ ¬ (c = '-' ∨ c.isDigit = true)) ∧
      ∀ c ∈ rest, inWord (some c) = true := by
    unfold word? at h
    split_ifs at h with hnull htrue hfalse
    · exact ⟨_, _, hnull, by decide, List.all_eq_true.1 rfl⟩
    · exact ⟨_, _, htrue, by decide, List.all_eq_true.1 rfl⟩
    · exact ⟨_, _, hfalse, by decide, List.all_eq_true.1 rfl⟩
  intro found rest hrest
  obtain ⟨htake, hdrop⟩ := takeWhile_symbols hcs fun s hs => (hrest s hs).2
  rw [List.map_cons, List.cons_append, scanFrom, if_neg (by simp [hblank])]
  simp only [hmark]
  rw [if_neg hquote, if_neg hnumber, htake, hdrop, h]
  rfl

end Cuts

end CameraFleet.Json
