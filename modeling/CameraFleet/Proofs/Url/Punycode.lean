import Mathlib.Data.List.TakeWhile
import Mathlib.Data.List.Sort
import Mathlib.Tactic.Ring
import CameraFleet.Url.Punycode

/-!
# Punycode is read back

What is written for a label stands for this label (`decode?_encode`). Writer and reader run the
same counter over code points and places. The writer has gone over a part of the label with the
counter at some code point; the reader knows the characters that come before this in the order of
the counter (`Follows`), and the distance that is not written yet leads from where the reader is to
where the writer is. Each character that the writer goes over keeps it so (`Follows.visit`).
-/

namespace CameraFleet.Url.Punycode

/-! ## Distances -/

theorem digit?_digit : ∀ d < 36, digit? (digit d) = some d := by decide

theorem digit_ne_hyphen : ∀ d < 36, digit d ≠ '-' := by decide

/-- A character of a distance. -/
def IsDigit (c : Char) : Prop := ∃ d < 36, c = digit d

theorem div_lt_of_threshold_le {bias k distance : Nat} (h : threshold k bias ≤ distance) :
    (distance - threshold k bias) / (36 - threshold k bias) < distance := by
  have := threshold_bounds k bias
  calc (distance - threshold k bias) / (36 - threshold k bias)
      ≤ distance - threshold k bias := Nat.div_le_self _ _
    _ < distance := by omega

theorem isDigit_of_mem_distanceDigits {bias k distance : Nat} {c : Char}
    (h : c ∈ distanceDigits bias k distance) : IsDigit c := by
  induction distance using Nat.strong_induction_on generalizing k with
  | _ distance ih =>
    have hbounds := threshold_bounds k bias
    rw [distanceDigits] at h
    split_ifs at h with hlt
    · exact ⟨distance, by omega, List.mem_singleton.1 h⟩
    · rcases List.mem_cons.1 h with rfl | h
      · have := Nat.mod_lt (distance - threshold k bias)
          (show 0 < 36 - threshold k bias by omega)
        exact ⟨_, by omega, rfl⟩
      · exact ih _ (div_lt_of_threshold_le (Nat.not_lt.1 hlt)) h

theorem readDistance_append {bias k weight known distance : Nat} {rest : List Char} :
    readDistance bias k weight known (distanceDigits bias k distance ++ rest) =
      some (known + distance * weight, rest) := by
  induction distance using Nat.strong_induction_on generalizing k weight known with
  | _ distance ih =>
    have hbounds := threshold_bounds k bias
    rw [distanceDigits]
    split_ifs with hlt
    · rw [List.singleton_append, readDistance, digit?_digit distance (by omega)]
      exact if_pos hlt
    · have hsmall := div_lt_of_threshold_le (Nat.not_lt.1 hlt)
      have hmod := Nat.mod_lt (distance - threshold k bias)
        (show 0 < 36 - threshold k bias by omega)
      have hdivide := Nat.mod_add_div (distance - threshold k bias) (36 - threshold k bias)
      rw [List.cons_append, readDistance, digit?_digit _ (by omega)]
      simp only
      rw [if_neg (by omega), ih _ hsmall]
      generalize (distance - threshold k bias) / (36 - threshold k bias) = high at *
      generalize (distance - threshold k bias) % (36 - threshold k bias) = low at *
      congr 2
      calc known + (threshold k bias + low) * weight + high * (weight * (36 - threshold k bias))
          = known + (threshold k bias + (low + (36 - threshold k bias) * high)) * weight := by ring
        _ = known + distance * weight := by
          rw [hdivide, Nat.add_sub_cancel' (Nat.not_lt.1 hlt)]

/-! ## Points -/

theorem pairwise_lt_eraseDups : ∀ {points : List Nat}, points.Pairwise (· ≤ ·) →
    points.eraseDups.Pairwise (· < ·)
  | [], _ => List.Pairwise.nil
  | point :: points, h => by
    obtain ⟨hle, hrest⟩ := List.pairwise_cons.1 h
    have : (points.filter (!· == point)).length < points.length + 1 :=
      Nat.lt_succ_of_le (List.length_filter_le _ _)
    rw [List.eraseDups_cons, List.pairwise_cons]
    refine ⟨fun other hother => ?_, pairwise_lt_eraseDups (hrest.filter _)⟩
    obtain ⟨hmem, hne⟩ := List.mem_filter.1 (List.mem_eraseDups.1 hother)
    have := hle other hmem
    simp only [Bool.not_eq_true', beq_eq_false_iff_ne] at hne
    omega
termination_by points => points.length

theorem char?_toNat (c : Char) : char? c.toNat = some c := by
  rw [char?, if_pos (show c.toNat.isValidChar from c.valid), Char.ofNat_toNat]

theorem insertIdx_length_append {α : Type} (a : α) :
    ∀ front behind : List α, (front ++ behind).insertIdx front.length a = front ++ a :: behind
  | [], _ => List.insertIdx_zero
  | b :: front, behind => by
    rw [List.cons_append, List.length_cons, List.insertIdx_succ_cons,
      insertIdx_length_append a front behind, List.cons_append]

theorem readPoints_of_readDistance {bias point place distance : Nat} {known cs rest : List Char}
    {c : Char} (hread : readDistance bias 36 1 0 cs = some (distance, rest))
    (hchar : char? (point + (place + distance) / (known.length + 1)) = some c) :
    readPoints bias point place known cs =
      readPoints (adapt distance (known.length + 1) (known.all (·.toNat < initialPoint)))
        (point + (place + distance) / (known.length + 1))
        ((place + distance) % (known.length + 1) + 1)
        (known.insertIdx ((place + distance) % (known.length + 1)) c) rest := by
  have hne : cs ≠ [] := by
    rintro rfl
    simp [readDistance] at hread
  rw [readPoints, if_neg hne]
  split
  · rename_i hnone
    rw [hread] at hnone
    contradiction
  · rename_i distance' rest' hsome
    obtain ⟨rfl, rfl⟩ : distance = distance' ∧ rest = rest' := by
      simpa [hread] using hsome
    simp only [hchar]

/-! ## Writer and reader -/

/-- Where the reader is: at a code point, in a place, with what it knows. -/
structure Reader where
  bias : Nat
  point : Nat
  place : Nat
  known : List Char

/-- What the reader makes of digits. -/
def Reader.read (r : Reader) (cs : List Char) : Option (List Char) :=
  readPoints r.bias r.point r.place r.known cs

/-- The counter of the writer is at `point`, and behind `before` in the label. The reader knows the
characters up to there, and is as far behind as the distance says. -/
structure Follows (r : Reader) (basic point : Nat) (before after : List Char) (p : Progress) :
    Prop where
  bias : p.bias = r.bias
  known : r.known = before.filter (·.toNat ≤ point) ++ after.filter (·.toNat < point)
  count : p.known = r.known.length
  basic : basic = (r.known.filter (·.toNat < initialPoint)).length
  distance : r.point * (r.known.length + 1) + r.place + p.delta =
    point * (r.known.length + 1) + (before.filter (·.toNat ≤ point)).length

namespace Follows

variable {r : Reader} {basic point : Nat} {before after : List Char} {p : Progress} {c : Char}

/-- Whether the reader knows ASCII characters alone is whether the writer has counted no other. -/
theorem all_known (h : Follows r basic point before after p) :
    r.known.all (·.toNat < initialPoint) = decide (p.known = basic) := by
  rw [Bool.eq_iff_iff, decide_eq_true_eq, h.count, h.basic, List.all_eq_true,
    ← List.length_filter_eq_length_iff]
  exact eq_comm

/-- The distance leads to a code point at or behind that of the reader. -/
theorem place_add (h : Follows r basic point before after p) : r.point ≤ point ∧
    r.place + p.delta = (point - r.point) * (r.known.length + 1) +
      (before.filter (·.toNat ≤ point)).length := by
  have hlength : (before.filter (·.toNat ≤ point)).length < r.known.length + 1 := by
    rw [h.known, List.length_append]
    omega
  have hdistance := h.distance
  have hle : r.point ≤ point := by
    by_contra hlt
    have := Nat.mul_le_mul_right (r.known.length + 1) (show point + 1 ≤ r.point by omega)
    rw [Nat.add_mul, Nat.one_mul] at this
    omega
  refine ⟨hle, ?_⟩
  have hmul : r.point * (r.known.length + 1) + (point - r.point) * (r.known.length + 1) =
      point * (r.known.length + 1) := by
    rw [← Nat.add_mul, Nat.add_sub_cancel' hle]
  omega

theorem known_cons (h : Follows r basic c.toNat before (c :: after) p) : r.known =
    before.filter (·.toNat ≤ c.toNat) ++ after.filter (·.toNat < c.toNat) := by
  rw [h.known, List.filter_cons_of_neg (by simp)]

/-- The reader puts the character of a written distance where the writer is. -/
theorem read_distance (h : Follows r basic c.toNat before (c :: after) p) (rest : List Char) :
    r.read (distanceDigits p.bias 36 p.delta ++ rest) =
      Reader.read ⟨adapt p.delta (p.known + 1) (p.known = basic), c.toNat,
        (before.filter (·.toNat ≤ c.toNat)).length + 1,
        before.filter (·.toNat ≤ c.toNat) ++ c :: after.filter (·.toNat < c.toNat)⟩ rest := by
  obtain ⟨hle, hplace⟩ := h.place_add
  have hlength : (before.filter (·.toNat ≤ c.toNat)).length < r.known.length + 1 := by
    rw [h.known, List.length_append]
    omega
  have hread : readDistance r.bias 36 1 0 (distanceDigits p.bias 36 p.delta ++ rest) =
      some (p.delta, rest) := by
    rw [h.bias, readDistance_append, Nat.zero_add, Nat.mul_one]
  have hpoint : r.point + (r.place + p.delta) / (r.known.length + 1) = c.toNat := by
    rw [hplace, Nat.mul_comm, Nat.mul_add_div (Nat.succ_pos _), Nat.div_eq_of_lt hlength]
    omega
  have hmod : (r.place + p.delta) % (r.known.length + 1) =
      (before.filter (·.toNat ≤ c.toNat)).length := by
    rw [hplace, Nat.mul_comm, Nat.mul_add_mod, Nat.mod_eq_of_lt hlength]
  have hinsert : r.known.insertIdx (before.filter (·.toNat ≤ c.toNat)).length c =
      before.filter (·.toNat ≤ c.toNat) ++ c :: after.filter (·.toNat < c.toNat) := by
    rw [h.known_cons, insertIdx_length_append]
  rw [Reader.read, readPoints_of_readDistance hread (by rw [hpoint, char?_toNat]), hpoint, hmod,
    hinsert, h.all_known, h.count]
  rfl

/-- The writer goes over one character, and the reader follows what it writes. -/
theorem visit (h : Follows r basic point before (c :: after) p) (hpoint : initialPoint ≤ point) :
    ∃ digits r', (visit basic point p c).written = p.written ++ digits ∧
      (∀ d ∈ digits, IsDigit d) ∧
      Follows r' basic point (before ++ [c]) after (visit basic point p c) ∧
      ∀ rest, r.read (digits ++ rest) = r'.read rest := by
  have hknown := h.known
  have hdistance := h.distance
  rcases Nat.lt_trichotomy c.toNat point with hlt | rfl | hgt
  · have hvisit : Punycode.visit basic point p c = { p with delta := p.delta + 1 } := if_pos hlt
    have hfront : (before ++ [c]).filter (·.toNat ≤ point) =
        before.filter (·.toNat ≤ point) ++ [c] := by
      simp [hlt.le]
    rw [hvisit]
    refine ⟨[], r, (List.append_nil _).symm, by simp, ⟨h.bias, ?_, h.count, h.basic, ?_⟩,
      fun rest => rfl⟩
    · rw [hknown, hfront]
      simp [hlt]
    · rw [hfront, List.length_append, List.length_singleton]
      simp only
      omega
  · have hvisit : Punycode.visit basic c.toNat p c =
        ⟨p.written ++ distanceDigits p.bias 36 p.delta, 0,
          adapt p.delta (p.known + 1) (p.known = basic), p.known + 1⟩ := by
      rw [Punycode.visit, if_neg (lt_irrefl _), if_pos rfl]
    have hfront : (before ++ [c]).filter (·.toNat ≤ c.toNat) =
        before.filter (·.toNat ≤ c.toNat) ++ [c] := by
      simp
    have hbasic := h.basic
    rw [h.known_cons] at hbasic
    rw [hvisit]
    refine ⟨_, _, rfl, fun d => isDigit_of_mem_distanceDigits, ⟨rfl, ?_, ?_, ?_, ?_⟩,
      h.read_distance⟩
    · rw [hfront, List.append_assoc, List.singleton_append]
    · rw [h.count, h.known_cons]
      simp only [List.length_append, List.length_cons]
      omega
    · rw [hbasic, List.filter_append, List.filter_append,
        List.filter_cons_of_neg (by simpa using hpoint)]
    · rw [hfront, @List.length_append _ _ [c]]
      rfl
  · have hvisit : Punycode.visit basic point p c = p := by
      rw [Punycode.visit, if_neg (by omega), if_neg (by omega)]
    have hfront : (before ++ [c]).filter (·.toNat ≤ point) = before.filter (·.toNat ≤ point) := by
      simp [hgt]
    rw [hvisit]
    refine ⟨[], r, (List.append_nil _).symm, by simp, ⟨h.bias, ?_, h.count, h.basic, ?_⟩,
      fun rest => rfl⟩
    · rw [hknown, hfront]
      simp [hgt.le]
    · rw [hfront]
      exact hdistance

/-- The writer goes over the rest of the label. -/
theorem sweep (h : Follows r basic point before after p) (hpoint : initialPoint ≤ point) :
    ∃ digits r', (after.foldl (Punycode.visit basic point) p).written = p.written ++ digits ∧
      (∀ d ∈ digits, IsDigit d) ∧
      Follows r' basic point (before ++ after) [] (after.foldl (Punycode.visit basic point) p) ∧
      ∀ rest, r.read (digits ++ rest) = r'.read rest := by
  induction after generalizing before r p with
  | nil =>
    refine ⟨[], r, (List.append_nil _).symm, by simp, ?_, fun rest => rfl⟩
    rwa [List.append_nil]
  | cons c after ih =>
    obtain ⟨first, r₁, hfirst, hdigits₁, hfollows₁, hread₁⟩ := h.visit hpoint
    obtain ⟨later, r₂, hlater, hdigits₂, hfollows₂, hread₂⟩ := ih hfollows₁
    refine ⟨first ++ later, r₂, ?_, ?_, ?_, fun rest => ?_⟩
    · rw [List.foldl_cons, hlater, hfirst, List.append_assoc]
    · exact fun d hd => (List.mem_append.1 hd).elim (hdigits₁ d) (hdigits₂ d)
    · rwa [List.append_assoc, List.singleton_append] at hfollows₂
    · rw [List.append_assoc, hread₁, hread₂]

variable {label : List Char} {counter : Nat} {points : List Nat}

/-- The counter goes on to the next code point of the label, before the label. -/
theorem advance (h : Follows r basic counter [] label p) (hle : counter ≤ point)
    (hskip : ∀ c ∈ label, counter ≤ c.toNat → point ≤ c.toNat) :
    Follows r basic point [] label
      { p with delta := p.delta + (point - counter) * (p.known + 1) } := by
  have hlabel : label.filter (·.toNat < point) = label.filter (·.toNat < counter) := by
    refine List.filter_congr fun c hc => ?_
    have := hskip c hc
    simp only [decide_eq_decide]
    omega
  have hdistance := h.distance
  refine ⟨h.bias, by rw [h.known, hlabel]; rfl, h.count, h.basic, ?_⟩
  have hmul : counter * (r.known.length + 1) + (point - counter) * (r.known.length + 1) =
      point * (r.known.length + 1) := by
    rw [← Nat.add_mul, Nat.add_sub_cancel' hle]
  simp only [h.count, List.filter_nil, List.length_nil] at hdistance ⊢
  omega

/-- Behind the label the counter goes on to the next code point. -/
theorem next (h : Follows r basic point label [] p) :
    Follows r basic (point + 1) [] label { p with delta := p.delta + 1 } := by
  have hknown : r.known = label.filter (·.toNat ≤ point) := by
    rw [h.known, List.filter_nil, List.append_nil]
  have hdistance := h.distance
  refine ⟨h.bias, ?_, h.count, h.basic, ?_⟩
  · simpa only [Nat.lt_succ_iff, List.filter_nil, List.nil_append] using hknown
  · rw [← hknown] at hdistance
    simp only [List.filter_nil, List.length_nil, Nat.add_mul, Nat.one_mul]
    omega

/-- The reader makes the label of what the writer writes from here on. -/
theorem writePoints (h : Follows r basic counter [] label p) (hcounter : initialPoint ≤ counter)
    (hascending : points.Pairwise (· < ·)) (hge : ∀ point ∈ points, counter ≤ point)
    (hpoints : ∀ c ∈ label, counter ≤ c.toNat → c.toNat ∈ points) :
    ∃ digits, writePoints label basic points counter p = p.written ++ digits ∧
      (∀ d ∈ digits, IsDigit d) ∧ r.read digits = some label := by
  induction points generalizing counter r p with
  | nil =>
    have hlabel : r.known = label := by
      rw [h.known, List.filter_nil, List.nil_append, List.filter_eq_self]
      intro c hc
      by_contra hlt
      exact absurd (hpoints c hc (by simpa using hlt)) List.not_mem_nil
    refine ⟨[], (List.append_nil _).symm, by simp, ?_⟩
    rw [Reader.read, readPoints, if_pos rfl, hlabel]
  | cons point points ih =>
    obtain ⟨hlt, hascending⟩ := List.pairwise_cons.1 hascending
    have hle : counter ≤ point := hge point List.mem_cons_self
    have hskip : ∀ c ∈ label, counter ≤ c.toNat → point ≤ c.toNat := by
      intro c hc hcounter
      rcases List.mem_cons.1 (hpoints c hc hcounter) with heq | hmem
      · exact heq.ge
      · exact (hlt _ hmem).le
    obtain ⟨first, r₁, hfirst, hdigits₁, hfollows₁, hread₁⟩ :=
      (h.advance hle hskip).sweep (hcounter.trans hle)
    have hnext : ∀ c ∈ label, point + 1 ≤ c.toNat → c.toNat ∈ points := by
      intro c hc hgt
      rcases List.mem_cons.1 (hpoints c hc (by omega)) with heq | hmem
      · omega
      · exact hmem
    obtain ⟨later, hlater, hdigits₂, hread₂⟩ :=
      ih hfollows₁.next (by omega) hascending (fun other hother => hlt other hother) hnext
    refine ⟨first ++ later, ?_, ?_, ?_⟩
    · rw [Punycode.writePoints]
      simp only at hlater hfirst ⊢
      rw [hlater, hfirst, List.append_assoc]
    · exact fun d hd => (List.mem_append.1 hd).elim (hdigits₁ d) (hdigits₂ d)
    · rw [hread₁, hread₂]

end Follows

/-- The ASCII characters of a label. -/
def basicOf (label : List Char) : List Char :=
  label.filter (·.toNat < initialPoint)

theorem exists_encode (label : List Char) : ∃ digits,
    encode label = (if basicOf label = [] then [] else basicOf label ++ ['-']) ++ digits ∧
      (∀ d ∈ digits, IsDigit d) ∧
      readPoints initialBias initialPoint 0 (basicOf label) digits = some label := by
  have hstart : Follows ⟨initialBias, initialPoint, 0, basicOf label⟩ (basicOf label).length
      initialPoint [] label ⟨if basicOf label = [] then [] else basicOf label ++ ['-'], 0,
        initialBias, (basicOf label).length⟩ := by
    refine ⟨rfl, rfl, rfl, ?_, rfl⟩
    rw [basicOf, List.filter_filter]
    simp only [Bool.and_self]
  have hmem : ∀ point, point ∈
      ((label.filter (initialPoint ≤ ·.toNat)).map Char.toNat).mergeSort.eraseDups ↔
        ∃ c ∈ label, initialPoint ≤ c.toNat ∧ c.toNat = point := by
    intro point
    simp only [List.mem_eraseDups, List.mem_mergeSort, List.mem_map, List.mem_filter,
      decide_eq_true_eq, and_assoc]
  have hsorted := pairwise_lt_eraseDups
    (List.pairwise_mergeSort' (· ≤ ·) ((label.filter (initialPoint ≤ ·.toNat)).map Char.toNat))
  refine hstart.writePoints le_rfl hsorted (fun point hpoint => ?_) fun c hc hge =>
    (hmem c.toNat).2 ⟨c, hc, hge, rfl⟩
  obtain ⟨c, -, hge, rfl⟩ := (hmem point).1 hpoint
  exact hge

/-- The characters of what is written are the ASCII ones of the label, hyphens and digits. -/
theorem mem_encode {label : List Char} {c : Char} (h : c ∈ encode label) :
    (c ∈ label ∧ c.toNat < initialPoint) ∨ c = '-' ∨ IsDigit c := by
  obtain ⟨digits, hencode, hdigits, -⟩ := exists_encode label
  rw [hencode, List.mem_append] at h
  rcases h with h | h
  · split_ifs at h
    · exact absurd h List.not_mem_nil
    · rcases List.mem_append.1 h with h | h
      · exact .inl (by simpa [basicOf] using h)
      · exact .inr (.inl (List.mem_singleton.1 h))
  · exact .inr (.inr (hdigits c h))

/-- What is written for a label stands for this label. -/
theorem decode?_encode (label : List Char) : decode? (encode label) = some label := by
  obtain ⟨digits, hencode, hdigits, hread⟩ := exists_encode label
  have hhyphen : ∀ d ∈ digits.reverse, decide (d ≠ '-') = true := by
    intro d hd
    obtain ⟨value, hvalue, rfl⟩ := hdigits d (List.mem_reverse.1 hd)
    exact decide_eq_true (digit_ne_hyphen value hvalue)
  rw [decode?, hencode]
  split_ifs with hbasic
  · have htail : digits.reverse.takeWhile (· ≠ '-') = digits.reverse :=
      List.takeWhile_eq_self_iff.2 hhyphen
    simp only [List.nil_append, htail, List.reverse_reverse, Nat.sub_self, List.take_zero,
      List.dropLast_nil]
    rwa [hbasic] at hread
  · have htail : (basicOf label ++ ['-'] ++ digits).reverse.takeWhile (· ≠ '-') =
        digits.reverse := by
      rw [List.reverse_append, List.takeWhile_append_of_pos hhyphen]
      simp
    simp only [htail, List.reverse_reverse, @List.length_append _ _ digits,
      Nat.add_sub_cancel, List.take_left', List.dropLast_concat]
    exact hread

end CameraFleet.Url.Punycode
