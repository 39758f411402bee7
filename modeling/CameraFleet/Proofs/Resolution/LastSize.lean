import Mathlib.Data.Nat.Find
import CameraFleet.Proofs.Resolution.Label

/-!
# A size at the end of a label

A size behind a blank at the end of a label is the last one, unless the text in front is open: it
ends, behind the last size found in it, in a numeral and a cross (`EndsOpen`). Then the digits of
the width are taken for the height that is missing there, and no size is left
(`sizes_append_size`). So the label names the size at its end just if the text in front is not
open, or else by chance (`ofLabel?_append_size`).
-/

namespace CameraFleet.Resolution

variable {cs rest width height t : List Char} {w : Written} {ws : List Written} {c : Char}

/-- A text is a numeral and a cross, with blanks allowed around the cross: a size that lacks its
height. -/
inductive SpellsWidth : List Char → List Char → Prop
  | intro {width left right : List Char} {cross : Char} (hwidth : IsNumeral width)
      (hleft : ∀ c ∈ left, Text.isBlank c = true) (hcross : isCross cross = true)
      (hright : ∀ c ∈ right, Text.isBlank c = true) :
      SpellsWidth width (width ++ left ++ cross :: right)

theorem SpellsWidth.ne_nil (h : SpellsWidth width t) : t ≠ [] := by
  obtain ⟨-, -, -, -⟩ := h
  simp

/-- A text ends in a size that lacks its height; the longest such end has this width. -/
def EndsOpen (cs width : List Char) : Prop :=
  ∃ front t, cs = front ++ t ∧ SpellsWidth width t ∧
    ∀ front' t' width', cs = front' ++ t' → SpellsWidth width' t' → front.length ≤ front'.length

theorem exists_endsOpen (front : List Char) (h : SpellsWidth width t) :
    ∃ width, EndsOpen (front ++ t) width := by
  classical
  have hsome : ∃ n front' t' width', front ++ t = front' ++ t' ∧ SpellsWidth width' t' ∧
      front'.length = n := ⟨_, front, t, width, rfl, h, rfl⟩
  obtain ⟨front', t', width', heq, ht', hlength⟩ := Nat.find_spec hsome
  refine ⟨width', front', t', heq, ht', fun front'' t'' width'' heq' ht'' => ?_⟩
  rw [hlength]
  exact Nat.find_min' hsome ⟨front'', t'', width'', heq', ht'', rfl⟩

theorem EndsOpen.isNumeral (h : EndsOpen cs width) : IsNumeral width := by
  obtain ⟨front, t, -, ⟨hwidth, -, -, -⟩, -⟩ := h
  exact hwidth

/-- An open text has a blank or a cross at its end. -/
theorem EndsOpen.exists_getLast (h : EndsOpen cs width) :
    ∃ c ∈ cs.getLast?, Text.isBlank c = true ∨ isCross c = true := by
  obtain ⟨front, t, rfl, ht, -⟩ := h
  obtain @⟨left, right, cross, -, -, hcross, hright⟩ := ht
  simp only [List.getLast?_append, List.getLast?_cons]
  rcases hlast : right.getLast? with _ | c
  · exact ⟨cross, by simp, Or.inr hcross⟩
  · exact ⟨c, by simp, Or.inl (hright c (List.mem_of_getLast? hlast))⟩

theorem Found.suffix (h : Found cs ws rest) : rest <:+ cs := by
  induction h with
  | nil hnone => exact List.suffix_rfl
  | cons hw hfirst hback ih => exact ih.trans (List.suffix_append _ _)

theorem Found.not_endsOpen (h : Found cs ws rest)
    (hlast : ∀ c ∈ cs.getLast?, Text.isBlank c = false ∧ isCross c = false) :
    ¬ EndsOpen rest width := by
  intro hopen
  obtain ⟨c, hc, hor⟩ := hopen.exists_getLast
  obtain ⟨front, rfl⟩ := h.suffix
  obtain ⟨hblank, hcross⟩ := hlast c (by simp [List.getLast?_append, Option.mem_def.1 hc])
  simp [hblank, hcross] at hor

/-! ## A blank behind a text -/

theorem EndsBefore.append_blank {ds : List Char} (h : EndsBefore ds rest) (more : List Char) :
    EndsBefore ds (rest ++ ' ' :: more) := by
  refine h.imp_right fun hrest c hc => ?_
  rcases rest with _ | ⟨d, rest⟩
  · obtain rfl : ' ' = c := by simpa using hc
    decide +kernel
  · exact hrest c hc

theorem leadingDigits_append_blank {ds : List Char} (h : leadingDigits cs = (ds, rest))
    (more : List Char) : leadingDigits (cs ++ ' ' :: more) = (ds, rest ++ ' ' :: more) := by
  obtain ⟨ds', rest', hread, rfl, hlength, hdigits, hends⟩ := exists_leadingDigits cs
  rw [h] at hread
  obtain ⟨rfl, rfl⟩ := Prod.mk.inj hread
  rw [List.append_assoc]
  exact leadingDigits_append hlength hdigits (hends.append_blank more)

/-- Behind blanks alone the blanks go on, and behind anything else they do not matter. -/
theorem dropWhile_append_blank (cs more : List Char) :
    (cs ++ ' ' :: more).dropWhile Text.isBlank =
      if cs.dropWhile Text.isBlank = [] then more.dropWhile Text.isBlank
      else cs.dropWhile Text.isBlank ++ ' ' :: more := by
  rw [List.dropWhile_append]
  simp only [List.isEmpty_iff]
  rfl

/-- With a size behind a blank, a text that neither begins with a size nor is open does not begin
with one either. -/
theorem leadingSize?_append_blank (hwidth : IsNumeral width) (hnone : leadingSize? cs = none)
    (hopen : ∀ width, ¬ SpellsWidth width cs) (more : List Char) :
    leadingSize? (cs ++ ' ' :: (width ++ more)) = none := by
  obtain ⟨ds, behind, hds, hcs, hlength, hdigits, -⟩ := exists_leadingDigits cs
  have hmore : (width ++ more).dropWhile Text.isBlank = width ++ more :=
    @Text.dropWhile_append_of_stop _ [] _ (by simp) hwidth.not_isBlank_head
  simp only [leadingSize?, hds] at hnone
  simp only [leadingSize?, leadingDigits_append_blank hds, dropWhile_append_blank, hmore]
  rcases hdrop : behind.dropWhile Text.isBlank with _ | ⟨cross, tail⟩
  · obtain ⟨d, width, rfl⟩ := List.exists_cons_of_ne_nil hwidth.ne_nil
    simp [isCross_of_isDecimalDigit (hwidth.digits d List.mem_cons_self)]
  · have hbehind : behind = behind.takeWhile Text.isBlank ++ cross :: tail := by
      rw [← hdrop, List.takeWhile_append_dropWhile]
    simp only [hdrop] at hnone
    simp only [List.cons_ne_nil, if_false, List.cons_append, dropWhile_append_blank, hmore]
    split_ifs with htail hsize hsize
    · refine absurd ?_ (hopen ds)
      rw [hcs, hbehind, ← List.append_assoc]
      exact .intro ⟨hsize.1, hlength, hdigits⟩ (fun c => List.mem_takeWhile_imp) hsize.2.1
        (List.dropWhile_eq_nil_iff.1 htail)
    · rfl
    · obtain ⟨height, rest, hheight, -⟩ := exists_leadingDigits (tail.dropWhile Text.isBlank)
      rw [leadingDigits_append_blank hheight] at hsize
      rw [hheight, if_pos hsize] at hnone
      exact absurd hnone (Option.some_ne_none _)
    · rfl

/-- What is open takes the digits behind the blank for the height. -/
theorem leadingSize?_of_spellsWidth (h : SpellsWidth width t) (hheight : IsNumeral height)
    (hends : EndsBefore height rest) :
    leadingSize? (t ++ ' ' :: (height ++ rest)) = some (⟨width, height⟩, rest) := by
  obtain @⟨left, right, cross, hwidth, hleft, hcross, hright⟩ := h
  have hblank : ∀ c ∈ right ++ [' '], Text.isBlank c = true := by
    simpa [or_imp, forall_and] using ⟨hright, (by decide : Text.isBlank ' ' = true)⟩
  have htext : width ++ left ++ cross :: right ++ ' ' :: (height ++ rest) =
      width ++ left ++ cross :: (right ++ [' ']) ++ height ++ rest := by simp
  rw [htext]
  exact leadingSize?_of_spells (.intro hwidth hleft hcross hblank hheight) hends

theorem Spells.exists_isCross (h : Spells w t) : ∃ c ∈ t, isCross c = true := by
  obtain @⟨width, left, right, height, cross, -, -, hcross, -, -⟩ := h
  exact ⟨cross, by simp, hcross⟩

/-- Behind a cross there are blanks alone in an open text, so no size is in it. -/
theorem SpellsWidth.hasNoSize (h : SpellsWidth width cs) : HasNoSize cs := by
  intro w t ht
  obtain @⟨left, right, cross, hwidth, hleft, hcross, hright⟩ := h
  obtain @⟨width', left', right', height, cross', hwidth', hleft', hcross', hright', hheight⟩ := ht
  rintro ⟨front, back, heq⟩
  have hsplit : (front ++ width' ++ left') ++ cross' :: (right' ++ height ++ back) =
      (width ++ left) ++ cross :: right := by
    rw [← heq]
    simp only [List.append_assoc, List.cons_append]
  have hheight' : ∀ c ∈ height, c ∈ right := by
    intro c hc
    have hmem : c ∈ right' ++ height ++ back := by simp [hc]
    rcases List.append_eq_append_iff.1 hsplit with ⟨more, hmore, htail⟩ | ⟨more, -, htail⟩
    · rcases more with _ | ⟨d, more⟩
      · rwa [(List.cons.inj htail).2] at hmem
      · -- the other cross would be a digit or a blank
        obtain rfl : cross' = d := (List.cons.inj htail).1
        have hcross : cross' ∈ width ++ left := by simp [hmore]
        rcases List.mem_append.1 hcross with hcross | hcross
        · simp [isCross_of_isDecimalDigit (hwidth.digits _ hcross)] at hcross'
        · simp [isCross_of_isBlank (hleft _ hcross)] at hcross'
    · rcases more with _ | ⟨d, more⟩
      · rwa [← (List.cons.inj htail).2] at hmem
      · rw [(List.cons.inj htail).2]
        exact List.mem_append_right _ (List.mem_cons_of_mem _ hmem)
  obtain ⟨d, hd⟩ := List.exists_mem_of_ne_nil _ hheight.ne_nil
  have hblank := hright d (hheight' d hd)
  simp [Text.isBlank_of_isDecimalDigit (hheight.digits d hd)] at hblank

/-! ## A size behind a blank -/

section

variable (hwidth : IsNumeral width) (hheight : IsNumeral height)
include hwidth hheight

omit hwidth in
theorem sizes_cross_append : sizes ('x' :: height) = [] := by
  have hcross : leadingSize? ('x' :: height) = none := by
    have hx : leadingDigits ([] ++ 'x' :: height) = ([], 'x' :: height) :=
      leadingDigits_append (by decide) (by simp) (Or.inr (by simpa using by decide +kernel))
    rw [List.nil_append] at hx
    simp only [leadingSize?, hx]
    split <;> simp
  refine (Found.nil (hasNoSize_cons.2 ⟨hcross, fun w t ht hinside => ?_⟩)).eq_sizes
  obtain ⟨c, hc, hcross⟩ := ht.exists_isCross
  simp [isCross_of_isDecimalDigit (hheight.digits c (hinside.subset hc))] at hcross

theorem sizes_blank_append :
    sizes (' ' :: (width ++ 'x' :: height)) = [⟨width, height⟩] := by
  have hblank : leadingSize? ([] ++ ' ' :: (width ++ 'x' :: height)) = none :=
    leadingSize?_append_blank hwidth (by decide) (fun _ h => h.ne_nil rfl) _
  have hsize : leadingSize? (width ++ [] ++ 'x' :: [] ++ height ++ []) =
      some (⟨width, height⟩, []) :=
    leadingSize?_of_spells (.intro hwidth (by simp) (by decide) (by simp) hheight)
      (Or.inr (by simp))
  simp only [List.append_nil, List.append_assoc, List.cons_append, List.nil_append] at hblank hsize
  rw [sizes_cons hblank, sizes_of_leadingSize? hsize, sizes]

/-- Behind a text in which no size is found, the width goes to what is open, or else the size is
found. -/
theorem HasNoSize.sizes_append_size (hnone : HasNoSize cs) :
    (∀ ds, EndsOpen cs ds →
      sizes (cs ++ ' ' :: (width ++ 'x' :: height)) = [⟨ds, width⟩]) ∧
    ((∀ ds, ¬ EndsOpen cs ds) →
      sizes (cs ++ ' ' :: (width ++ 'x' :: height)) = [⟨width, height⟩]) := by
  constructor
  · rintro ds ⟨front, t, rfl, ht, hfirst⟩
    have hends : EndsBefore width ('x' :: height) := Or.inr fun c hc => by
      obtain rfl : 'x' = c := by simpa using hc
      decide +kernel
    rw [List.append_assoc, sizes_append fun before behind hfront hne => ?_,
      sizes_of_leadingSize? (leadingSize?_of_spellsWidth ht hwidth hends),
      sizes_cross_append hheight]
    rw [← List.append_assoc]
    refine leadingSize?_append_blank hwidth
      (hnone.leadingSize?_eq_none (by rw [hfront, List.append_assoc])) (fun ds' hds' => ?_) _
    have hle := hfirst before _ ds' (by rw [hfront, List.append_assoc]) hds'
    have := List.length_pos_iff.2 hne
    rw [hfront, List.length_append] at hle
    omega
  · intro hopen
    rw [sizes_append fun before behind hcs hne => ?_, sizes_blank_append hwidth hheight]
    refine leadingSize?_append_blank hwidth (hnone.leadingSize?_eq_none hcs) (fun ds hds => ?_) _
    obtain ⟨ds', hds'⟩ := exists_endsOpen before hds
    exact hopen ds' (hcs ▸ hds')

omit hheight in
/-- The sizes of a text are found also in front of a blank and a numeral. -/
theorem Found.sizes_append_blank (h : Found cs ws rest) (more : List Char) :
    sizes (cs ++ ' ' :: (width ++ more)) = ws ++ sizes (rest ++ ' ' :: (width ++ more)) := by
  induction h with
  | nil hnone => rfl
  | @cons front t back rest w ws hw hfirst hback ih =>
    have hskip : ∀ before behind, front = before ++ behind → behind ≠ [] →
        leadingSize? (behind ++ (t ++ (back ++ ' ' :: (width ++ more)))) = none := by
      intro before behind hfront hne
      have htext : behind ++ (t ++ (back ++ ' ' :: (width ++ more))) =
          behind ++ (t ++ back) ++ ' ' :: (width ++ more) := by simp only [List.append_assoc]
      rw [htext]
      exact leadingSize?_append_blank hwidth (hfirst.leadingSize?_eq_none hfront hne)
        (fun ds hds => hds.hasNoSize w t hw ⟨behind, back, List.append_assoc _ _ _⟩) _
    rw [List.append_assoc, List.append_assoc, sizes_append hskip,
      sizes_of_leadingSize? (leadingSize?_of_spells hw ((hfirst.endsBefore hw).append_blank _)),
      ih, List.cons_append]

theorem Found.sizes_append_size (h : Found cs ws rest) :
    (∀ ds, EndsOpen rest ds →
      sizes (cs ++ ' ' :: (width ++ 'x' :: height)) = ws ++ [⟨ds, width⟩]) ∧
    ((∀ ds, ¬ EndsOpen rest ds) →
      sizes (cs ++ ' ' :: (width ++ 'x' :: height)) = ws ++ [⟨width, height⟩]) := by
  obtain ⟨hopen, hclosed⟩ := h.hasNoSize.sizes_append_size hwidth hheight
  rw [h.sizes_append_blank hwidth]
  exact ⟨fun ds hds => by rw [hopen ds hds], fun hds => by rw [hclosed hds]⟩

end

/-! ## Labels -/

theorem isNumeral_digits {n : Nat} (h : n ≤ 99999) : IsNumeral (Natural.digits n) :=
  ⟨Natural.digits_ne_nil n, (Nat.length_toDigits_le_iff (by decide) (by decide)).2 (by omega),
    fun _ hc => Text.isDecimalDigit_of_isDigit (Natural.isDigit_of_mem_digits hc)⟩

/-- A size at the end of a label, behind a blank, is the one that the label names, just if the
text in front is not open behind the last size found in it, or if what is found instead is the
same size by chance: the open width is the width and this is also the height. -/
theorem ofLabel?_append_size (front : String) {width height : Nat}
    (hwidth : 1 ≤ width ∧ width ≤ 99999) (hheight : 1 ≤ height ∧ height ≤ 99999) :
    ofLabel? (front ++ " " ++ Natural.toText width ++ "x" ++ Natural.toText height) =
        some ⟨UInt32.ofNat width, UInt32.ofNat height⟩ ↔
      ∀ ws rest ds, Found front.toList ws rest → EndsOpen rest ds →
        Natural.ofDigits? ds = some width ∧ width = height := by
  have htoNat {n : Nat} (h : n ≤ 99999) : (UInt32.ofNat n).toNat = n :=
    UInt32.toNat_ofNat_of_lt' (by simp only [UInt32.size]; omega)
  have hwidth' := isNumeral_digits hwidth.2
  have hheight' := isNumeral_digits hheight.2
  have hlabel : (front ++ " " ++ Natural.toText width ++ "x" ++ Natural.toText height).toList =
      front.toList ++ ' ' :: (Natural.digits width ++ 'x' :: Natural.digits height) := by
    simp [Natural.toText]
  have hlast {ws w} (h : sizes (front.toList ++
      ' ' :: (Natural.digits width ++ 'x' :: Natural.digits height)) = ws ++ [w]) :
      ofLabel? (front ++ " " ++ Natural.toText width ++ "x" ++ Natural.toText height) =
        ofWritten? w := by
    rw [ofLabel?, hlabel, h, List.getLast?_concat, Option.bind_some]
  constructor
  · intro h ws rest ds hfound hopen
    rw [hlast ((hfound.sizes_append_size hwidth' hheight').1 ds hopen),
      ofWritten?_eq_some_iff hopen.isNumeral hwidth', htoNat hwidth.2, htoNat hheight.2] at h
    have hvalue := h.2.value
    rw [Natural.ofDigits?_digits, Option.some.injEq] at hvalue
    exact ⟨h.1.value, hvalue⟩
  · intro h
    obtain ⟨rest, hfound⟩ := found_sizes front.toList
    obtain ⟨hopen, hclosed⟩ := hfound.sizes_append_size hwidth' hheight'
    by_cases hsome : ∃ ds, EndsOpen rest ds
    · obtain ⟨ds, hds⟩ := hsome
      obtain ⟨hvalue, rfl⟩ := h _ rest ds hfound hds
      rw [hlast (hopen ds hds), ofWritten?_eq_some_iff hds.isNumeral hwidth', htoNat hwidth.2]
      exact ⟨⟨hds.isNumeral.length_le, hvalue, hwidth⟩,
        ⟨hwidth'.length_le, Natural.ofDigits?_digits width, hwidth⟩⟩
    · rw [hlast (hclosed (not_exists.1 hsome)), ofWritten?_eq_some_iff hwidth' hheight',
        htoNat hwidth.2, htoNat hheight.2]
      exact ⟨⟨hwidth'.length_le, Natural.ofDigits?_digits width, hwidth⟩,
        ⟨hheight'.length_le, Natural.ofDigits?_digits height, hheight⟩⟩

/-- Another size in front does not matter. -/
theorem ofLabel?_append_size_cropped :
    ofLabel? ("crop 320x240 of" ++ " " ++ Natural.toText 640 ++ "x" ++ Natural.toText 480) =
      some ⟨640, 480⟩ := by
  refine (ofLabel?_append_size "crop 320x240 of" (by decide) (by decide)).2 ?_
  intro ws rest ds hfound hopen
  refine absurd hopen (hfound.not_endsOpen fun c hc => ?_)
  obtain rfl : 'f' = c := by simpa using hc
  decide

/-- A factor in front takes the digits of the width for a height, and the size is lost. -/
theorem not_ofLabel?_append_size_binned :
    ofLabel? ("Binning 2x" ++ " " ++ Natural.toText 640 ++ "x" ++ Natural.toText 480) =
        some ⟨2, 640⟩ ∧
      ofLabel? ("Binning 2x" ++ " " ++ Natural.toText 640 ++ "x" ++ Natural.toText 480) ≠
        some ⟨640, 480⟩ := by
  have hlabel : ofLabel? ("Binning 2x" ++ " " ++ Natural.toText 640 ++ "x" ++
      Natural.toText 480) = some ⟨2, 640⟩ := by
    decide +kernel
  exact ⟨hlabel, by rw [hlabel]; decide⟩

end CameraFleet.Resolution
