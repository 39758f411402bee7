import Mathlib.Data.List.TakeWhile
import Mathlib.Tactic.Common
import CameraFleet.Resolution

/-!
# Sizes in a text

A text spells a size if it is a numeral, a cross and a numeral, with blanks allowed around the
cross (`Spells`). What `leadingSize?` reads at the beginning of a text is the longest text there
that spells a size (`leadingSize?_eq_some_iff`), and it reads nothing only where none begins
(`leadingSize?_eq_none_iff`). So the sizes of a label are those found from left to right and
without overlap, each of them the first and the longest that there is (`found_sizes`,
`Found.eq_sizes`).
-/

namespace CameraFleet

namespace Text

variable {c : Char} {p : Char → Bool}

theorem isDecimalDigit_iff :
    isDecimalDigit c = true ↔ ∃ first ∈ digitZeros, first ≤ c.toNat ∧ c.toNat < first + 10 := by
  have hascii : c.isDigit = true →
      ∃ first ∈ digitZeros, first ≤ c.toNat ∧ c.toNat < first + 10 := by
    intro h
    have hrange : 48 ≤ c.toNat ∧ c.toNat ≤ 57 := by
      simpa [Char.isDigit, UInt32.le_iff_toNat_le] using h
    exact ⟨0x30, by decide, by omega, by omega⟩
  simp only [isDecimalDigit, Bool.or_eq_true, List.any_eq_true, Bool.and_eq_true,
    decide_eq_true_eq]
  exact ⟨fun h => h.elim hascii id, Or.inr⟩

theorem isDecimalDigit_of_isBlank (h : isBlank c = true) : isDecimalDigit c = false := by
  have hmem : c.toNat ∈ [9, 10, 11, 12, 13, 0x20, 0x85, 0xA0, 0x1680, 0x2000, 0x2001, 0x2002,
      0x2003, 0x2004, 0x2005, 0x2006, 0x2007, 0x2008, 0x2009, 0x200A, 0x2028, 0x2029, 0x202F,
      0x205F, 0x3000] := by
    simp only [isBlank, Bool.or_eq_true, Bool.and_eq_true, decide_eq_true_eq, beq_iff_eq] at h
    simp only [List.mem_cons, List.not_mem_nil, or_false]
    omega
  have hall : ∀ n ∈ [9, 10, 11, 12, 13, 0x20, 0x85, 0xA0, 0x1680, 0x2000, 0x2001, 0x2002,
      0x2003, 0x2004, 0x2005, 0x2006, 0x2007, 0x2008, 0x2009, 0x200A, 0x2028, 0x2029, 0x202F,
      0x205F, 0x3000], ∀ first ∈ digitZeros, ¬ (first ≤ n ∧ n < first + 10) := by
    decide +kernel
  rw [← Bool.not_eq_true, isDecimalDigit_iff]
  rintro ⟨first, hfirst, hrange⟩
  exact hall _ hmem first hfirst hrange

theorem isBlank_of_isDecimalDigit (h : isDecimalDigit c = true) : isBlank c = false := by
  rw [← Bool.not_eq_true]
  intro hblank
  simp [isDecimalDigit_of_isBlank hblank] at h

theorem takeWhile_append_of_stop {cs rest : List Char} (hcs : ∀ c ∈ cs, p c = true)
    (hrest : ∀ c ∈ rest.head?, p c = false) : (cs ++ rest).takeWhile p = cs := by
  rw [List.takeWhile_append_of_pos hcs]
  rcases rest with _ | ⟨c, rest⟩
  · simp
  · simp [hrest c rfl]

theorem dropWhile_append_of_stop {cs rest : List Char} (hcs : ∀ c ∈ cs, p c = true)
    (hrest : ∀ c ∈ rest.head?, p c = false) : (cs ++ rest).dropWhile p = rest := by
  rw [List.dropWhile_append_of_pos hcs]
  rcases rest with _ | ⟨c, rest⟩
  · simp
  · simp [hrest c rfl]

end Text

namespace Resolution

variable {cs rest left t : List Char} {cross c : Char} {w : Written}

theorem isDecimalDigit_of_isCross (h : isCross c = true) : Text.isDecimalDigit c = false := by
  simp only [isCross, Bool.or_eq_true, decide_eq_true_eq] at h
  rcases h with (h | h) | h <;> subst h <;> decide +kernel

theorem isBlank_of_isCross (h : isCross c = true) : Text.isBlank c = false := by
  simp only [isCross, Bool.or_eq_true, decide_eq_true_eq] at h
  rcases h with (h | h) | h <;> subst h <;> decide

theorem isCross_of_isDecimalDigit (h : Text.isDecimalDigit c = true) : isCross c = false := by
  rw [← Bool.not_eq_true]
  intro hcross
  simp [isDecimalDigit_of_isCross hcross] at h

theorem isCross_of_isBlank (h : Text.isBlank c = true) : isCross c = false := by
  rw [← Bool.not_eq_true]
  intro hcross
  simp [isBlank_of_isCross hcross] at h

/-! ## Numerals -/

/-- One to five decimal digits of any script. -/
structure IsNumeral (cs : List Char) : Prop where
  ne_nil : cs ≠ []
  length_le : cs.length ≤ 5
  digits : ∀ c ∈ cs, Text.isDecimalDigit c = true

/-- A numeral in front of a text does not go on in it. -/
def EndsBefore (cs rest : List Char) : Prop :=
  cs.length = 5 ∨ ∀ c ∈ rest.head?, Text.isDecimalDigit c = false

/-- As many digits as there are stand in front, but no more than `n`. -/
theorem exists_takeWhile_take (n : Nat) (cs : List Char) : ∃ ds rest, cs = ds ++ rest ∧
    (cs.take n).takeWhile Text.isDecimalDigit = ds ∧ ds.length ≤ n ∧
    (∀ c ∈ ds, Text.isDecimalDigit c = true) ∧
    (ds.length = n ∨ ∀ c ∈ rest.head?, Text.isDecimalDigit c = false) := by
  induction cs generalizing n with
  | nil => exact ⟨[], [], by simp⟩
  | cons c cs ih =>
    rcases n with _ | n
    · exact ⟨[], c :: cs, by simp⟩
    rw [List.take_succ_cons, List.takeWhile_cons]
    split_ifs with hc
    · obtain ⟨ds, rest, hcs, htake, hlength, hdigits, hends⟩ := ih n
      refine ⟨c :: ds, rest, by rw [hcs]; rfl, by rw [htake], by simpa using hlength,
        List.forall_mem_cons.2 ⟨hc, hdigits⟩, by simpa using hends⟩
    · exact ⟨[], c :: cs, rfl, rfl, Nat.zero_le _, by simp, Or.inr (by simpa using hc)⟩

theorem exists_leadingDigits (cs : List Char) : ∃ ds rest, leadingDigits cs = (ds, rest) ∧
    cs = ds ++ rest ∧ ds.length ≤ 5 ∧ (∀ c ∈ ds, Text.isDecimalDigit c = true) ∧
    EndsBefore ds rest := by
  obtain ⟨ds, rest, hcs, htake, hlength, hdigits, hends⟩ := exists_takeWhile_take 5 cs
  refine ⟨ds, rest, ?_, hcs, hlength, hdigits, hends⟩
  rw [leadingDigits, htake, hcs, List.drop_left]

theorem leadingDigits_append {ds : List Char} (hlength : ds.length ≤ 5)
    (hdigits : ∀ c ∈ ds, Text.isDecimalDigit c = true) (hends : EndsBefore ds rest) :
    leadingDigits (ds ++ rest) = (ds, rest) := by
  have hstop : ∀ c ∈ (rest.take (5 - ds.length)).head?, Text.isDecimalDigit c = false := by
    rcases hends with hfive | hrest
    · simp [hfive]
    · intro c hc
      rw [List.head?_take] at hc
      split_ifs at hc
      · simp at hc
      · exact hrest c hc
  rw [leadingDigits, List.take_append, List.take_of_length_le hlength,
    Text.takeWhile_append_of_stop hdigits hstop, List.drop_left]

/-! ## The size at the beginning -/

/-- A text is a numeral, a cross and a numeral, with blanks allowed around the cross. -/
inductive Spells : Written → List Char → Prop
  | intro {width left right height : List Char} {cross : Char} (hwidth : IsNumeral width)
      (hleft : ∀ c ∈ left, Text.isBlank c = true) (hcross : isCross cross = true)
      (hright : ∀ c ∈ right, Text.isBlank c = true) (hheight : IsNumeral height) :
      Spells ⟨width, height⟩ (width ++ left ++ cross :: right ++ height)

theorem Spells.ne_nil (h : Spells w t) : t ≠ [] := by
  obtain ⟨hwidth, -, -, -, -⟩ := h
  simp

/-- Neither blanks nor a cross go on with a numeral. -/
theorem endsBefore_blanks {ds : List Char} (hleft : ∀ c ∈ left, Text.isBlank c = true)
    (hcross : isCross cross = true) : EndsBefore ds (left ++ cross :: rest) := by
  refine Or.inr fun c hc => ?_
  rcases left with _ | ⟨d, left⟩
  · obtain rfl : cross = c := by simpa using hc
    exact isDecimalDigit_of_isCross hcross
  · obtain rfl : d = c := by simpa using hc
    exact Text.isDecimalDigit_of_isBlank (hleft d List.mem_cons_self)

theorem IsNumeral.not_isBlank_head {ds : List Char} (h : IsNumeral ds) :
    ∀ c ∈ (ds ++ rest).head?, Text.isBlank c = false := by
  obtain ⟨d, ds', rfl⟩ := List.exists_cons_of_ne_nil h.ne_nil
  intro c hc
  obtain rfl : d = c := by simpa using hc
  exact Text.isBlank_of_isDecimalDigit (h.digits d List.mem_cons_self)

/-- A text that spells a size is read, if its height does not go on behind it. -/
theorem leadingSize?_of_spells (h : Spells w t) (hends : EndsBefore w.height rest) :
    leadingSize? (t ++ rest) = some (w, rest) := by
  obtain @⟨width, left, right, height, cross, hwidth, hleft, hcross, hright, hheight⟩ := h
  have hfront : leadingDigits (width ++ left ++ cross :: right ++ height ++ rest) =
      (width, left ++ cross :: (right ++ (height ++ rest))) := by
    simp only [List.append_assoc, List.cons_append]
    exact leadingDigits_append hwidth.length_le hwidth.digits (endsBefore_blanks hleft hcross)
  have hstop : ∀ c ∈ (cross :: (right ++ (height ++ rest))).head?, Text.isBlank c = false := by
    simpa using isBlank_of_isCross hcross
  simp only [leadingSize?, hfront, Text.dropWhile_append_of_stop hleft hstop,
    Text.dropWhile_append_of_stop hright hheight.not_isBlank_head,
    leadingDigits_append hheight.length_le hheight.digits hends]
  exact if_pos ⟨hwidth.ne_nil, hcross, hheight.ne_nil⟩

theorem spells_of_leadingSize? (h : leadingSize? cs = some (w, rest)) :
    ∃ t, Spells w t ∧ cs = t ++ rest ∧ EndsBefore w.height rest := by
  obtain ⟨width, behind, hwidth, hcs, hlength, hdigits, -⟩ := exists_leadingDigits cs
  simp only [leadingSize?, hwidth] at h
  split at h
  · rename_i cross tail htail
    obtain ⟨height, rest', hheight, hrest, hlength', hdigits', hends⟩ :=
      exists_leadingDigits (tail.dropWhile Text.isBlank)
    rw [hheight] at h
    split_ifs at h with hsome
    simp only [Option.some.injEq, Prod.mk.injEq] at h
    obtain ⟨rfl, rfl⟩ := h
    have hbehind : behind = behind.takeWhile Text.isBlank ++ cross :: tail := by
      rw [← htail, List.takeWhile_append_dropWhile]
    have htail' : tail = tail.takeWhile Text.isBlank ++ (height ++ rest') := by
      rw [← hrest, List.takeWhile_append_dropWhile]
    have hspells : Spells ⟨width, height⟩ (width ++ behind.takeWhile Text.isBlank ++
        cross :: tail.takeWhile Text.isBlank ++ height) :=
      .intro ⟨hsome.1, hlength, hdigits⟩ (fun c => List.mem_takeWhile_imp) hsome.2.1
        (fun c => List.mem_takeWhile_imp) ⟨hsome.2.2, hlength', hdigits'⟩
    refine ⟨_, hspells, ?_, hends⟩
    calc cs = width ++ behind := hcs
      _ = width ++ (behind.takeWhile Text.isBlank ++
            cross :: (tail.takeWhile Text.isBlank ++ (height ++ rest'))) := by
        rw [← htail', ← hbehind]
      _ = width ++ behind.takeWhile Text.isBlank ++ cross :: tail.takeWhile Text.isBlank ++
            height ++ rest' := by
        simp only [List.append_assoc, List.cons_append]
  · simp at h

/-- Where a text begins with one that spells a size, a size is read, and no less of the text. -/
theorem exists_leadingSize? (h : Spells w t) (rest : List Char) : ∃ w' t' rest',
    leadingSize? (t ++ rest) = some (w', rest') ∧ t ++ rest = t' ++ rest' ∧
      t.length ≤ t'.length := by
  obtain @⟨width, left, right, height, cross, hwidth, hleft, hcross, hright, hheight⟩ := h
  obtain ⟨height', rest', -, hrest, hlength, hdigits, hends⟩ :=
    exists_leadingDigits (height ++ rest)
  have hlonger : height.length ≤ height'.length := by
    rcases List.append_eq_append_iff.1 hrest with ⟨more, rfl, -⟩ | ⟨more, rfl, hmore⟩
    · simp
    · rcases more with _ | ⟨d, more⟩
      · simp
      · -- a digit of the numeral would have been left over
        rcases hends with hfive | hstop
        · have := hheight.length_le
          rw [List.length_append, hfive, List.length_cons] at this
          omega
        · have hd := hheight.digits d (List.mem_append_right _ List.mem_cons_self)
          rw [hstop d (by rw [hmore]; rfl)] at hd
          exact absurd hd Bool.false_ne_true
  have hne : height' ≠ [] := fun hnil => hheight.ne_nil <| by
    rw [hnil] at hlonger
    exact List.length_eq_zero_iff.1 (Nat.le_zero.1 hlonger)
  have hread := leadingSize?_of_spells
    (.intro hwidth hleft hcross hright ⟨hne, hlength, hdigits⟩) hends
  have htext : width ++ left ++ cross :: right ++ height ++ rest =
      width ++ left ++ cross :: right ++ height' ++ rest' := by
    rw [List.append_assoc _ height, hrest, ← List.append_assoc]
  refine ⟨_, _, rest', htext ▸ hread, htext, ?_⟩
  simp only [List.length_append]
  omega

theorem leadingSize?_eq_none_iff :
    leadingSize? cs = none ↔ ∀ w t, Spells w t → ¬ t <+: cs := by
  constructor
  · rintro h w t ht ⟨rest, rfl⟩
    obtain ⟨w', t', rest', hsome, -⟩ := exists_leadingSize? ht rest
    rw [h] at hsome
    exact Option.some_ne_none _ hsome.symm
  · intro h
    rcases hsize : leadingSize? cs with _ | ⟨w, rest⟩
    · rfl
    · obtain ⟨t, ht, hcs, -⟩ := spells_of_leadingSize? hsize
      exact absurd ⟨rest, hcs.symm⟩ (h w t ht)

/-! ## All sizes -/

/-- No part of a text spells a size. -/
def HasNoSize (cs : List Char) : Prop := ∀ w t, Spells w t → ¬ t <:+: cs

theorem HasNoSize.leadingSize?_eq_none {before behind : List Char} (h : HasNoSize cs)
    (hcs : cs = before ++ behind) : leadingSize? behind = none := by
  rw [leadingSize?_eq_none_iff]
  intro w t ht hbegins
  exact h w t ht (hcs ▸ hbegins.isInfix.trans (List.suffix_append before behind).isInfix)

theorem hasNoSize_cons : HasNoSize (c :: cs) ↔ leadingSize? (c :: cs) = none ∧ HasNoSize cs := by
  simp only [HasNoSize, leadingSize?_eq_none_iff, List.infix_cons_iff, not_or, imp_and,
    forall_and]

/-- No text that spells a size begins before the one between `front` and `back`, and none that
begins there is longer. -/
def IsFirst (front t back : List Char) : Prop :=
  ∀ w front' t' back', Spells w t' → front ++ t ++ back = front' ++ t' ++ back' →
    front.length < front'.length ∨ front.length = front'.length ∧ t'.length ≤ t.length

/-- The sizes that a text shows from left to right and without overlap, each the first and the
longest in what the ones before have left, and what stands behind the last of them. -/
inductive Found : List Char → List Written → List Char → Prop
  | nil {cs : List Char} (hnone : HasNoSize cs) : Found cs [] cs
  | cons {front t back rest : List Char} {w : Written} {ws : List Written} (hw : Spells w t)
      (hfirst : IsFirst front t back) (hback : Found back ws rest) :
      Found (front ++ t ++ back) (w :: ws) rest

theorem sizes_of_leadingSize? (h : leadingSize? cs = some (w, rest)) :
    sizes cs = w :: sizes rest := by
  rcases cs with _ | ⟨c, cs⟩
  · simp [leadingSize?, leadingDigits] at h
  · rw [sizes]
    split
    · rename_i w' rest' h'
      rw [h] at h'
      simp only [Option.some.injEq, Prod.mk.injEq] at h'
      rw [h'.1, h'.2]
    · rename_i h'
      rw [h] at h'
      exact absurd h' (Option.some_ne_none _)

theorem sizes_cons (h : leadingSize? (c :: cs) = none) : sizes (c :: cs) = sizes cs := by
  rw [sizes]
  split
  · rename_i h'
    rw [h] at h'
    exact absurd h'.symm (Option.some_ne_none _)
  · rfl

/-- No size begins within `front`, so the sizes are those of what follows. -/
theorem sizes_append {front : List Char}
    (h : ∀ before behind, front = before ++ behind → behind ≠ [] →
      leadingSize? (behind ++ cs) = none) : sizes (front ++ cs) = sizes cs := by
  induction front with
  | nil => rfl
  | cons c front ih =>
    have hnone : leadingSize? (c :: (front ++ cs)) = none :=
      h [] (c :: front) rfl (List.cons_ne_nil c front)
    rw [List.cons_append, sizes_cons hnone]
    exact ih fun before behind hfront => h (c :: before) behind (by rw [hfront]; rfl)

theorem Spells.concat (h : Spells w t) (hc : Text.isDecimalDigit c = true)
    (hlength : w.height.length ≠ 5) : Spells ⟨w.width, w.height ++ [c]⟩ (t ++ [c]) := by
  obtain @⟨width, left, right, height, cross, hwidth, hleft, hcross, hright, hheight⟩ := h
  have hlonger : (height ++ [c]).length ≤ 5 := by
    have hle := hheight.length_le
    rw [List.length_append, List.length_singleton]
    simp only [] at hlength
    omega
  rw [List.append_assoc]
  refine .intro hwidth hleft hcross hright ⟨by simp, hlonger, fun d hd => ?_⟩
  rcases List.mem_append.1 hd with hd | hd
  · exact hheight.digits d hd
  · rwa [List.mem_singleton.1 hd]

theorem IsFirst.endsBefore {front back : List Char} (h : IsFirst front t back) (hw : Spells w t) :
    EndsBefore w.height back := by
  by_cases hfive : w.height.length = 5
  · exact Or.inl hfive
  · refine Or.inr fun c hc => ?_
    obtain ⟨back, rfl⟩ := List.head?_eq_some_iff.1 hc
    by_contra hdigit
    have hlonger := hw.concat (by simpa using hdigit) hfive
    rcases h _ front _ back hlonger (by simp) with hlt | ⟨-, hle⟩
    · exact lt_irrefl _ hlt
    · rw [List.length_append, List.length_singleton] at hle
      omega

theorem IsFirst.leadingSize?_eq_none {front back before behind : List Char}
    (h : IsFirst front t back) (hfront : front = before ++ behind) (hne : behind ≠ []) :
    leadingSize? (behind ++ (t ++ back)) = none := by
  rw [leadingSize?_eq_none_iff]
  rintro w' t' ht' ⟨back', hback⟩
  have hlt : before.length < front.length := by
    rw [hfront, List.length_append]
    have := List.length_pos_iff.2 hne
    omega
  rcases h w' before t' back' ht'
    (by simp only [hfront, List.append_assoc, hback]) with hlt' | ⟨heq, -⟩
  · omega
  · omega

theorem Found.eq_sizes {ws : List Written} (h : Found cs ws rest) : sizes cs = ws := by
  induction h with
  | @nil cs hnone =>
    have hskip : sizes (cs ++ []) = sizes [] := sizes_append fun before behind hcs _ => by
      rw [List.append_nil]
      exact hnone.leadingSize?_eq_none hcs
    rw [List.append_nil] at hskip
    rw [hskip, sizes]
  | @cons front t back rest w ws hw hfirst hback ih =>
    rw [List.append_assoc, sizes_append fun before behind => hfirst.leadingSize?_eq_none,
      sizes_of_leadingSize? (leadingSize?_of_spells hw (hfirst.endsBefore hw)), ih]

theorem Found.exists_cons {ws : List Written} (h : Found cs ws rest)
    (hnone : leadingSize? (c :: cs) = none) : ∃ rest', Found (c :: cs) ws rest' := by
  cases h with
  | nil hcs => exact ⟨_, .nil (hasNoSize_cons.2 ⟨hnone, hcs⟩)⟩
  | @cons front t back _ w ws hw hfirst hback =>
    have hfirst' : IsFirst (c :: front) t back := by
      intro w' front' t' back' ht' heq
      rcases front' with _ | ⟨d, front'⟩
      · exact absurd ⟨back', heq.symm⟩ (leadingSize?_eq_none_iff.1 hnone w' t' ht')
      · obtain ⟨-, heq⟩ := List.cons.inj heq
        simpa using hfirst w' front' t' back' ht' heq
    exact ⟨rest, .cons hw hfirst' hback⟩

/-- What is read at the beginning is first there. -/
theorem isFirst_of_leadingSize? (h : leadingSize? (t ++ rest) = some (w, rest)) :
    IsFirst [] t rest := by
  intro w' front' t' back' ht' heq
  rcases front' with _ | ⟨d, front'⟩
  · obtain ⟨w'', t'', rest'', hread, heq', hle⟩ := exists_leadingSize? ht' back'
    simp only [List.nil_append] at heq
    rw [← heq, h] at hread
    obtain ⟨-, rfl⟩ := Prod.mk.inj (Option.some.inj hread)
    obtain rfl := List.append_cancel_right (heq.trans heq')
    exact Or.inr ⟨rfl, hle⟩
  · exact Or.inl (by simp)

theorem found_sizes (cs : List Char) : ∃ rest, Found cs (sizes cs) rest := by
  fun_induction sizes cs with
  | case1 => exact ⟨[], .nil fun w t ht hinside => ht.ne_nil (List.infix_nil.1 hinside)⟩
  | case2 c cs w behind hsize ih =>
    obtain ⟨rest, hrest⟩ := ih
    obtain ⟨t, ht, hcs, -⟩ := spells_of_leadingSize? hsize
    rw [hcs] at hsize ⊢
    exact ⟨rest, .cons ht (isFirst_of_leadingSize? hsize) hrest⟩
  | case3 c cs hnone ih =>
    obtain ⟨rest, hrest⟩ := ih
    exact hrest.exists_cons hnone

end Resolution

end CameraFleet
