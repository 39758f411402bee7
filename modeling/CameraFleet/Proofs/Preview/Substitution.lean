import Mathlib.Logic.Function.Basic
import CameraFleet.Proofs.Preview

/-!
# Rendering as one substitution

The placeholders of a template are replaced one kind after the other, but the outcome is that of
a single pass over the template which puts all values in (`render_eq_substitute`). A template is
empty, begins with a placeholder, or begins with a character that is copied
(`template_induction`), and the argument goes along these cases: what a pass has put in for a
size consists of digits, so no placeholder begins in it or runs into it
(`begins_of_begins_substitute`), and the next pass finds just the placeholders of the template
(`replaceAll_substitute`). The index is put in last, so its own text may be anything.
-/

namespace CameraFleet

namespace Preview

/-- The kind of placeholder that a text begins with. -/
def slotAt? (cs : List Char) : Option Slot :=
  [Slot.width, .height, .index].find? fun slot => slot.placeholder.isPrefixOf cs

/-- One pass over a template from left to right: a value takes the place of each placeholder, and
every other character is copied. -/
def substitute (value : Slot → List Char) : List Char → List Char
  | [] => []
  | c :: cs =>
    match slotAt? (c :: cs) with
    | some slot => value slot ++ substitute value (cs.drop (slot.placeholder.length - 1))
    | none => c :: substitute value cs
termination_by cs => cs.length
decreasing_by
  · simp only [List.length_drop, List.length_cons]; omega
  · simp

/-- What stands for a quantity in an address. -/
def Slot.value (index : List Char) (r : Resolution) : Slot → List Char
  | .width => Natural.digits r.width.toNat
  | .height => Natural.digits r.height.toNat
  | .index => index

variable {value : Slot → List Char} {slot s : Slot} {c : Char} {cs : List Char}

/-! ## Placeholders -/

/-- A placeholder has its opening brace in front and nowhere else, and no digits. -/
theorem exists_placeholder_eq (slot : Slot) : ∃ name, slot.placeholder = '\x7b' :: name ∧
    ∀ c ∈ name, c ≠ '\x7b' ∧ c.isDigit = false := by
  cases slot with
  | width => exact ⟨['w', 'i', 'd', 't', 'h', '\x7d'], rfl, by simp⟩
  | height => exact ⟨['h', 'e', 'i', 'g', 'h', 't', '\x7d'], rfl, by simp⟩
  | index => exact ⟨['i', 'n', 'd', 'e', 'x', '\x7d'], rfl, by simp⟩

theorem eq_of_placeholder_begins (h : slot.placeholder <+: s.placeholder) : slot = s := by
  cases slot <;> cases s <;> first | rfl | exact absurd h (by decide)

/-- Two placeholders at the same place are the same. -/
theorem eq_of_placeholders_begin (h : slot.placeholder <+: cs) (hs : s.placeholder <+: cs) :
    slot = s :=
  (List.prefix_or_prefix_of_prefix h hs).elim eq_of_placeholder_begins
    fun h' => (eq_of_placeholder_begins h').symm

theorem slotAt?_eq_some_iff : slotAt? cs = some slot ↔ slot.placeholder <+: cs := by
  have hsound {s : Slot} (h : slotAt? cs = some s) : s.placeholder <+: cs :=
    List.isPrefixOf_iff_prefix.1 (List.find?_eq_some_iff_append.1 h).1
  refine ⟨hsound, fun h => ?_⟩
  have hmem : slot ∈ [Slot.width, .height, .index] := by cases slot <;> decide
  have hfound : (slotAt? cs).isSome := by
    rw [slotAt?, List.find?_isSome]
    exact ⟨slot, hmem, List.isPrefixOf_iff_prefix.2 h⟩
  obtain ⟨s, hs⟩ := Option.isSome_iff_exists.1 hfound
  rw [eq_of_placeholders_begin h (hsound hs)]
  exact hs

theorem slotAt?_eq_none_iff : slotAt? cs = none ↔ ∀ slot : Slot, ¬ slot.placeholder <+: cs := by
  simp only [Option.eq_none_iff_forall_ne_some, ne_eq, slotAt?_eq_some_iff]

/-! ## One pass -/

@[simp] theorem substitute_nil : substitute value [] = [] := by
  rw [substitute]

theorem substitute_placeholder_append (value : Slot → List Char) (slot : Slot)
    (cs : List Char) :
    substitute value (slot.placeholder ++ cs) = value slot ++ substitute value cs := by
  obtain ⟨name, hname, -⟩ := exists_placeholder_eq slot
  have hslot : slotAt? ('\x7b' :: (name ++ cs)) = some slot :=
    slotAt?_eq_some_iff.2 ⟨cs, by rw [hname]; rfl⟩
  rw [hname, List.cons_append, substitute, hslot]
  simp [hname]

theorem substitute_cons (h : ∀ slot : Slot, ¬ slot.placeholder <+: c :: cs) :
    substitute value (c :: cs) = c :: substitute value cs := by
  rw [substitute, slotAt?_eq_none_iff.2 h]

/-- Templates are taken apart as a pass goes over them. -/
theorem template_induction {P : List Char → Prop} (nil : P [])
    (placeholder : ∀ (slot : Slot) cs, P cs → P (slot.placeholder ++ cs))
    (cons : ∀ c cs, (∀ slot : Slot, ¬ slot.placeholder <+: c :: cs) → P cs → P (c :: cs))
    (cs : List Char) : P cs := by
  fun_induction substitute (fun _ => []) cs with
  | case1 => exact nil
  | case2 c cs slot hslot ih =>
    obtain ⟨rest, hrest⟩ := slotAt?_eq_some_iff.1 hslot
    rw [Text.drop_of_append_eq (placeholder_ne_nil slot) hrest] at ih
    rw [← hrest]
    exact placeholder slot rest ih
  | case3 c cs hslot ih => exact cons c cs (slotAt?_eq_none_iff.1 hslot) ih

/-- With its own placeholder for every quantity a template stays as it is. -/
theorem substitute_placeholder (cs : List Char) : substitute Slot.placeholder cs = cs := by
  induction cs using template_induction with
  | nil => exact substitute_nil
  | placeholder slot cs ih => rw [substitute_placeholder_append, ih]
  | cons c cs h ih => rw [substitute_cons h, ih]

/-- No placeholder runs into the opening brace of another one. -/
theorem placeholder_begins_of_append {front back : List Char} (hfront : front ≠ [])
    (h : slot.placeholder <+: front ++ '\x7b' :: back) : slot.placeholder <+: front := by
  rcases List.prefix_or_prefix_of_prefix h (List.prefix_append _ _) with hbegins | ⟨rest, hrest⟩
  · exact hbegins
  · obtain ⟨name, hname, hbrace⟩ := exists_placeholder_eq slot
    obtain ⟨d, front, rfl⟩ := List.exists_cons_of_ne_nil hfront
    rcases rest with _ | ⟨e, rest⟩
    · exact ⟨[], by rw [List.append_nil, ← hrest, List.append_nil]⟩
    · rw [← hrest, List.prefix_append_right_inj] at h
      obtain rfl : e = '\x7b' := (List.cons_prefix_cons.1 h).1
      rw [hname, List.cons_append] at hrest
      have hmem : '\x7b' ∈ name := by
        rw [← (List.cons.inj hrest).2]
        exact List.mem_append_right _ List.mem_cons_self
      exact absurd rfl (hbrace _ hmem).1

/-- A placeholder is replaced wherever it stands, and what is around it on its own. -/
theorem substitute_append_placeholder (value : Slot → List Char) (front : List Char)
    (slot : Slot) (back : List Char) : substitute value (front ++ slot.placeholder ++ back) =
      substitute value front ++ value slot ++ substitute value back := by
  rw [List.append_assoc]
  induction front using template_induction with
  | nil => simp [substitute_placeholder_append]
  | placeholder s front ih =>
    rw [List.append_assoc, substitute_placeholder_append, substitute_placeholder_append, ih]
    simp only [List.append_assoc]
  | cons c front h ih =>
    obtain ⟨name, hname, -⟩ := exists_placeholder_eq slot
    rw [substitute_cons h, List.cons_append, substitute_cons, ih]
    · rfl
    · intro s hs
      rw [hname, List.cons_append, ← List.cons_append] at hs
      exact h s (placeholder_begins_of_append (List.cons_ne_nil c front) hs)

/-! ## One pass after the other -/

/-- Every quantity stands as its placeholder or as digits. -/
def IsPartial (value : Slot → List Char) : Prop :=
  ∀ slot, value slot = slot.placeholder ∨ value slot ≠ [] ∧ ∀ c ∈ value slot, c.isDigit = true

theorem isPartial_placeholder : IsPartial Slot.placeholder := fun _ => Or.inl rfl

theorem IsPartial.update (h : IsPartial value) (slot : Slot) (n : Nat) :
    IsPartial (Function.update value slot (Natural.digits n)) := by
  intro s
  by_cases hs : s = slot
  · subst hs
    rw [Function.update_self]
    exact Or.inr ⟨Natural.digits_ne_nil n, fun c hc => Natural.isDigit_of_mem_digits hc⟩
  · rw [Function.update_of_ne hs]
    exact h s

/-- What has been put in so far does not take part in a further placeholder: a text without opening
braces and digits that the outcome begins with is one that the template begins with. -/
theorem begins_of_begins_substitute (hvalue : IsPartial value) {name : List Char}
    (hname : ∀ c ∈ name, c ≠ '\x7b' ∧ c.isDigit = false) (h : name <+: substitute value cs) :
    name <+: cs := by
  induction name generalizing cs with
  | nil => exact List.nil_prefix
  | cons d name ih =>
    obtain ⟨hd, hname⟩ := List.forall_mem_cons.1 hname
    cases cs using template_induction with
    | nil => simp at h
    | placeholder slot cs =>
      rw [substitute_placeholder_append] at h
      rcases hvalue slot with hslot | ⟨hne, hdigits⟩
      · obtain ⟨rest, hrest, -⟩ := exists_placeholder_eq slot
        rw [hslot, hrest, List.cons_append, List.cons_prefix_cons] at h
        exact absurd h.1 hd.1
      · obtain ⟨e, rest, hrest⟩ := List.exists_cons_of_ne_nil hne
        rw [hrest, List.cons_append, List.cons_prefix_cons] at h
        have hdigit := hdigits e (by rw [hrest]; exact List.mem_cons_self)
        rw [← h.1, hd.2] at hdigit
        exact absurd hdigit Bool.false_ne_true
    | cons c cs hc =>
      rw [substitute_cons hc, List.cons_prefix_cons] at h
      exact List.cons_prefix_cons.2 ⟨h.1, ih hname h.2⟩

end Preview

namespace Text

variable {old new : List Char}

theorem replaceAll_append_self (hold : old ≠ []) (new cs : List Char) :
    replaceAll old new (old ++ cs) = new ++ replaceAll old new cs := by
  obtain ⟨c, rest, rfl⟩ := List.exists_cons_of_ne_nil hold
  have hbegins : (c :: rest).isPrefixOf (c :: (rest ++ cs)) = true :=
    List.isPrefixOf_iff_prefix.2 ⟨cs, rfl⟩
  rw [List.cons_append, replaceAll, if_pos hbegins]
  simp

theorem replaceAll_cons {c : Char} {cs : List Char} (h : ¬ old <+: c :: cs) :
    replaceAll old new (c :: cs) = c :: replaceAll old new cs := by
  rw [replaceAll, if_neg (by rwa [List.isPrefixOf_iff_prefix])]

/-- No occurrence begins in a text that does not have the first character. -/
theorem replaceAll_append {c : Char} {rest : List Char} (new : List Char) {front : List Char}
    (h : ∀ d ∈ front, d ≠ c) (cs : List Char) :
    replaceAll (c :: rest) new (front ++ cs) = front ++ replaceAll (c :: rest) new cs := by
  induction front with
  | nil => rfl
  | cons d front ih =>
    obtain ⟨hd, hfront⟩ := List.forall_mem_cons.1 h
    rw [List.cons_append, replaceAll_cons, ih hfront, List.cons_append]
    rw [List.cons_prefix_cons]
    exact fun heq => hd heq.1.symm

end Text

namespace Preview

variable {value : Slot → List Char} {slot s : Slot}

/-- Another placeholder, or the digits in its place, is kept. -/
theorem replaceAll_value_append (hvalue : IsPartial value) (hs : s ≠ slot) (new cs : List Char) :
    Text.replaceAll slot.placeholder new (value s ++ cs) =
      value s ++ Text.replaceAll slot.placeholder new cs := by
  obtain ⟨name, hname, -⟩ := exists_placeholder_eq slot
  rcases hvalue s with hplaceholder | ⟨-, hdigits⟩
  · obtain ⟨name', hname', hbrace⟩ := exists_placeholder_eq s
    have hbegins : ¬ slot.placeholder <+: '\x7b' :: (name' ++ cs) := by
      rw [← List.cons_append, ← hname']
      exact fun h => hs (eq_of_placeholders_begin h (List.prefix_append _ _)).symm
    rw [hplaceholder, hname', List.cons_append, Text.replaceAll_cons hbegins, hname,
      Text.replaceAll_append new (fun d hd => (hbrace d hd).1), List.cons_append]
  · rw [hname]
    refine Text.replaceAll_append new (fun d hd heq => ?_) cs
    have := hdigits d hd
    rw [heq] at this
    exact absurd this (by decide)

/-- A further pass puts in the value for one more kind of placeholder. -/
theorem replaceAll_substitute (hvalue : IsPartial value) (hslot : value slot = slot.placeholder)
    (new cs : List Char) : Text.replaceAll slot.placeholder new (substitute value cs) =
      substitute (Function.update value slot new) cs := by
  induction cs using template_induction with
  | nil => simp [Text.replaceAll]
  | placeholder s cs ih =>
    rw [substitute_placeholder_append, substitute_placeholder_append, ← ih]
    by_cases hs : s = slot
    · subst hs
      rw [hslot, Text.replaceAll_append_self (placeholder_ne_nil s), Function.update_self]
    · rw [replaceAll_value_append hvalue hs, Function.update_of_ne hs]
  | cons c cs h ih =>
    rw [substitute_cons h, substitute_cons h, ← ih]
    refine Text.replaceAll_cons fun hbegins => h slot ?_
    obtain ⟨name, hname, hplain⟩ := exists_placeholder_eq slot
    rw [hname, List.cons_prefix_cons] at hbegins ⊢
    exact ⟨hbegins.1, begins_of_begins_substitute hvalue hplain hbegins.2⟩

/-- Whatever the index is, replacing the placeholders of one kind after the other is one pass. -/
theorem fill_eq_substitute (template index : List Char) (r : Resolution) :
    fill template (Natural.digits r.width.toNat) (Natural.digits r.height.toNat) index =
      substitute (Slot.value index r) template := by
  have hvalue : Function.update (Function.update (Function.update Slot.placeholder
      .width (Natural.digits r.width.toNat)) .height (Natural.digits r.height.toNat))
      .index index = Slot.value index r := by
    funext slot
    cases slot <;> rfl
  have hwidth := isPartial_placeholder.update .width r.width.toNat
  have hheight := hwidth.update .height r.height.toNat
  calc fill template (Natural.digits r.width.toNat) (Natural.digits r.height.toNat) index
      = fill (substitute Slot.placeholder template) (Natural.digits r.width.toNat)
          (Natural.digits r.height.toNat) index := by rw [substitute_placeholder]
    _ = substitute (Slot.value index r) template := by
      rw [fill, replaceAll_substitute isPartial_placeholder rfl,
        replaceAll_substitute hwidth rfl, replaceAll_substitute hheight rfl, hvalue]

/-- An address is its template with all values put in at once: a placeholder gives its value
wherever it stands, which nothing around it and no other value has a part in. -/
theorem render_eq_substitute (template : String) (index : Ident) (r : Resolution) :
    (render ⟨template⟩ index r).toList =
      substitute (Slot.value index.toText.toList r) template.toList ∧
    ∀ (front back : String) (slot : Slot),
      render ⟨front ++ String.ofList slot.placeholder ++ back⟩ index r =
        render ⟨front⟩ index r ++ String.ofList (Slot.value index.toText.toList r slot) ++
          render ⟨back⟩ index r := by
  have hrender (text : String) : render ⟨text⟩ index r =
      String.ofList (substitute (Slot.value index.toText.toList r) text.toList) := by
    rw [render, fill_eq_substitute]
  refine ⟨by rw [hrender, String.toList_ofList], fun front back slot => ?_⟩
  simp only [hrender, String.toList_append, String.toList_ofList, substitute_append_placeholder,
    String.ofList_append]

/-- An index that looks like placeholders is put in as it is, also inside of one that is not
complete. -/
example : render ⟨"\x7bhei\x7bwidth\x7dght\x7d/\x7bwid\x7bindex\x7dth\x7d/\x7bheight\x7d"⟩
      (.name "\x7bwidth\x7d\x7bindex\x7d") ⟨640, 480⟩ =
    "\x7bhei640ght\x7d/\x7bwid\x7bwidth\x7d\x7bindex\x7dth\x7d/480" := by decide +kernel

end Preview

end CameraFleet
