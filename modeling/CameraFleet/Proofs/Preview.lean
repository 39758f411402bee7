import Mathlib.Tactic.Common
import CameraFleet.Preview

/-!
# The characters of rendered addresses

What takes the place of placeholders brings its own characters and keeps all others, so an
address has a property of characters that placeholders, digits and the index have just when its
template has it (`Preview.forall_mem_render`). Its first and its last character are those of the
template or of what took their place (`Preview.hasEdges_render`).
-/

namespace CameraFleet

namespace Text

variable {old new cs : List Char} {p : Char → Prop}

theorem drop_of_append_eq {c : Char} {rest : List Char} (hold : old ≠ [])
    (h : old ++ rest = c :: cs) : cs.drop (old.length - 1) = rest := by
  obtain ⟨d, old, rfl⟩ := List.exists_cons_of_ne_nil hold
  obtain ⟨-, rfl⟩ := List.cons.inj h
  exact List.drop_left' rfl

theorem forall_mem_replaceAll (hold : old ≠ []) (hpold : ∀ c ∈ old, p c)
    (hpnew : ∀ c ∈ new, p c) : (∀ c ∈ replaceAll old new cs, p c) ↔ ∀ c ∈ cs, p c := by
  fun_induction replaceAll old new cs with
  | case1 => rfl
  | case2 c cs hprefix ih =>
    obtain ⟨rest, hrest⟩ := List.isPrefixOf_iff_prefix.1 hprefix
    rw [drop_of_append_eq hold hrest] at ih ⊢
    simp only [← hrest, List.forall_mem_append, ih, and_iff_right hpold, and_iff_right hpnew]
  | case3 c cs hprefix ih => simp only [List.forall_mem_cons, ih]

/-- The first and the last character have a property. -/
def HasEdges (p : Char → Prop) (cs : List Char) : Prop :=
  (∀ c ∈ cs.head?, p c) ∧ ∀ c ∈ cs.getLast?, p c

theorem hasEdges_of_forall (h : ∀ c ∈ cs, p c) : HasEdges p cs :=
  ⟨fun c hc => h c (List.mem_of_mem_head? hc), fun c hc => h c (List.mem_of_mem_getLast? hc)⟩

theorem replaceAll_ne_nil (hnew : new ≠ []) (hcs : cs ≠ []) : replaceAll old new cs ≠ [] := by
  unfold replaceAll
  split
  · exact absurd rfl hcs
  · split_ifs
    · exact List.append_ne_nil_of_left_ne_nil hnew _
    · exact List.cons_ne_nil _ _

theorem forall_mem_getLast?_append {front back : List Char} (hfront : ∀ c ∈ front.getLast?, p c)
    (hback : ∀ c ∈ back.getLast?, p c) : ∀ c ∈ (front ++ back).getLast?, p c := by
  rw [List.getLast?_append]
  rcases hlast : back.getLast? with _ | c
  · simpa using hfront
  · rw [hlast] at hback
    simpa using hback

theorem forall_mem_head?_replaceAll (h : ∀ c ∈ cs.head?, p c) (hnew : new ≠ [])
    (hpnew : ∀ c ∈ new.head?, p c) : ∀ c ∈ (replaceAll old new cs).head?, p c := by
  unfold replaceAll
  split
  · exact h
  · split_ifs
    · obtain ⟨d, new, rfl⟩ := List.exists_cons_of_ne_nil hnew
      exact hpnew
    · exact h

theorem forall_mem_getLast?_replaceAll (hold : old ≠ []) (hnew : new ≠ [])
    (hpnew : ∀ c ∈ new.getLast?, p c) (h : ∀ c ∈ cs.getLast?, p c) :
    ∀ c ∈ (replaceAll old new cs).getLast?, p c := by
  fun_induction replaceAll old new cs with
  | case1 => exact h
  | case2 c cs hprefix ih =>
    obtain ⟨rest, hrest⟩ := List.isPrefixOf_iff_prefix.1 hprefix
    rw [drop_of_append_eq hold hrest] at ih ⊢
    rw [← hrest] at h
    refine forall_mem_getLast?_append hpnew (ih fun d hd => h d ?_)
    simp [List.getLast?_append, Option.mem_def.1 hd]
  | case3 c cs hprefix ih =>
    rcases cs with _ | ⟨d, cs⟩
    · simpa [replaceAll] using h
    · have hne : replaceAll old new (d :: cs) ≠ [] := replaceAll_ne_nil hnew (List.cons_ne_nil d cs)
      obtain ⟨e, rest, hrest⟩ := List.exists_cons_of_ne_nil hne
      rw [hrest] at ih ⊢
      rw [List.getLast?_cons_cons] at h ⊢
      exact ih h

theorem HasEdges.replaceAll (h : HasEdges p cs) (hold : old ≠ []) (hnew : new ≠ [])
    (hpnew : HasEdges p new) : HasEdges p (replaceAll old new cs) :=
  ⟨forall_mem_head?_replaceAll h.1 hnew hpnew.1,
    forall_mem_getLast?_replaceAll hold hnew hpnew.2 h.2⟩

end Text

namespace Preview

variable {p : Char → Prop} {preview : Preview} {index : Ident}

/-- The characters of all placeholders have a property. -/
def OfSlots (p : Char → Prop) : Prop := ∀ slot : Slot, ∀ c ∈ slot.placeholder, p c

theorem placeholder_ne_nil (slot : Slot) : slot.placeholder ≠ [] := by
  cases slot <;> decide

/-- An address consists of characters of a kind that placeholders, digits and the index are of
just when its template does. -/
theorem forall_mem_render (hslots : OfSlots p) (hdigits : ∀ c, c.isDigit → p c)
    (hindex : ∀ c ∈ index.toText.toList, p c) (r : Resolution) :
    (∀ c ∈ (preview.render index r).toList, p c) ↔ ∀ c ∈ preview.template.toList, p c := by
  have hsize (n : Nat) : ∀ c ∈ Natural.digits n, p c := fun c hc =>
    hdigits c (Natural.isDigit_of_mem_digits hc)
  rw [render, fill, String.toList_ofList,
    Text.forall_mem_replaceAll (placeholder_ne_nil .index) (hslots .index) hindex,
    Text.forall_mem_replaceAll (placeholder_ne_nil .height) (hslots .height) (hsize _),
    Text.forall_mem_replaceAll (placeholder_ne_nil .width) (hslots .width) (hsize _)]

theorem hasEdges_render (hdigits : ∀ c, c.isDigit → p c) (hindex : index.toText.toList ≠ [])
    (hpindex : Text.HasEdges p index.toText.toList)
    (h : Text.HasEdges p preview.template.toList) (r : Resolution) :
    Text.HasEdges p (preview.render index r).toList := by
  have hsize (n : Nat) : Text.HasEdges p (Natural.digits n) :=
    Text.hasEdges_of_forall fun c hc => hdigits c (Natural.isDigit_of_mem_digits hc)
  rw [render, fill, String.toList_ofList]
  refine ((h.replaceAll ?_ ?_ (hsize _)).replaceAll ?_ ?_ (hsize _)).replaceAll ?_ hindex hpindex
  all_goals first | exact placeholder_ne_nil _ | exact Natural.digits_ne_nil _

end Preview

end CameraFleet
