/-!
# Blanks

White space as the Unicode property White_Space has it, and texts without the blanks around them.
-/

namespace CameraFleet.Text

/-- The characters with the Unicode property White_Space. -/
def isBlank (c : Char) : Bool :=
  let n := c.toNat
  (9 ≤ n && n ≤ 13) || n == 0x20 || n == 0x85 || n == 0xA0 || n == 0x1680 ||
    (0x2000 ≤ n && n ≤ 0x200A) || n == 0x2028 || n == 0x2029 || n == 0x202F || n == 0x205F ||
    n == 0x3000

/-- The characters without those at both ends that `p` holds of. -/
def stripBy (p : Char → Bool) (cs : List Char) : List Char :=
  ((cs.dropWhile p).reverse.dropWhile p).reverse

/-- The text without the blanks at both ends. -/
def trim (s : String) : String :=
  String.ofList (stripBy isBlank s.toList)

/-- A text of blanks alone, the empty one included. -/
def isBlankText (s : String) : Bool :=
  s.toList.all isBlank

theorem isBlank_of_isWhitespace {c : Char} (h : c.isWhitespace = true) : isBlank c = true := by
  simp only [Char.isWhitespace, Bool.or_eq_true, decide_eq_true_eq] at h
  rcases h with ((h | h) | h) | h <;> subst h <;> decide

@[simp] theorem stripBy_nil (p : Char → Bool) : stripBy p [] = [] := rfl

/-- Stripping leaves a text alone whose ends are kept. -/
theorem stripBy_eq_self {p : Char → Bool} {cs : List Char}
    (hh : ∀ c, cs.head? = some c → p c = false) (hl : ∀ c, cs.getLast? = some c → p c = false) :
    stripBy p cs = cs := by
  have h1 : cs.dropWhile p = cs := by
    cases cs with
    | nil => rfl
    | cons c cs => simp [hh c rfl]
  have h2 : cs.reverse.dropWhile p = cs.reverse := by
    cases hr : cs.reverse with
    | nil => rfl
    | cons c r =>
      have : cs.getLast? = some c := by rw [← List.head?_reverse, hr]; rfl
      simp [hl c this]
  rw [stripBy, h1, h2, List.reverse_reverse]

theorem dropWhile_append_of_all {p : Char → Bool} {before cs : List Char}
    (hb : ∀ c ∈ before, p c = true) (hh : ∀ c, cs.head? = some c → p c = false) :
    (before ++ cs).dropWhile p = cs := by
  rw [List.dropWhile_append_of_pos hb]
  cases cs with
  | nil => rfl
  | cons c cs => rw [List.dropWhile_cons_of_neg (by simp [hh c rfl])]

/-- Stripping takes away what is around a text whose ends are kept. -/
theorem stripBy_append {p : Char → Bool} {before cs after : List Char}
    (hb : ∀ c ∈ before, p c = true) (ha : ∀ c ∈ after, p c = true) (hne : cs ≠ [])
    (hh : ∀ c, cs.head? = some c → p c = false) (hl : ∀ c, cs.getLast? = some c → p c = false) :
    stripBy p (before ++ cs ++ after) = cs := by
  have hhead : ∀ c, (cs ++ after).head? = some c → p c = false := fun c hc => by
    obtain ⟨d, ds, rfl⟩ := List.exists_cons_of_ne_nil hne
    exact hh c hc
  have hlast : ∀ c, cs.reverse.head? = some c → p c = false := fun c hc =>
    hl c (by rwa [List.head?_reverse] at hc)
  rw [stripBy, List.append_assoc, dropWhile_append_of_all hb hhead, List.reverse_append,
    dropWhile_append_of_all (fun c hc => ha c (List.mem_reverse.1 hc)) hlast, List.reverse_reverse]

/-- Letters are no blanks, in either case. -/
theorem isBlank_eq_false_of_isLower_toLower {c : Char} (h : c.toLower.isLower = true) :
    isBlank c = false := by
  have hc : 65 ≤ c.toNat ∧ c.toNat ≤ 122 := by
    unfold Char.toLower at h
    split at h
    · rename_i hupper
      have hlow : 65 ≤ c.toNat := UInt32.le_iff_toNat_le.1 hupper.1
      have hhigh : c.toNat ≤ 90 := UInt32.le_iff_toNat_le.1 hupper.2
      omega
    · obtain ⟨hge, hle⟩ := Bool.and_eq_true_iff.1 h
      have hlow : 97 ≤ c.toNat := UInt32.le_iff_toNat_le.1 (of_decide_eq_true hge)
      have hhigh : c.toNat ≤ 122 := UInt32.le_iff_toNat_le.1 (of_decide_eq_true hle)
      omega
  simp [isBlank]
  omega

end CameraFleet.Text
