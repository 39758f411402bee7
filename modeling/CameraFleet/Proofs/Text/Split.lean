import Mathlib.Tactic.Common
import CameraFleet.Text.Blank
import CameraFleet.Text.Split

/-!
# The pieces of a text

A text that is cut at a separator has pieces without it (`mem_of_mem_splitOn`), and cutting is the
library's own (`splitOn_eq`), so a text with one more separator has the pieces of both its parts
(`splitOn_append`).
-/

namespace CameraFleet.Text

variable {sep : Char} {cs : List Char}

theorem splitOn_eq (sep : Char) : ∀ cs : List Char, splitOn sep cs = List.splitOn sep cs
  | [] => rfl
  | c :: cs => by
    rw [splitOn, splitOn_eq sep cs, List.splitOn_cons_eq_if_modifyHead]
    rcases h : List.splitOn sep cs with _ | ⟨piece, rest⟩
    · exact absurd h (List.splitOn_ne_nil _ _)
    · simp only [beq_iff_eq, List.modifyHead_cons]

theorem splitOn_of_not_mem (h : sep ∉ cs) : splitOn sep cs = [cs] := by
  rw [splitOn_eq, List.splitOn_eq_singleton h]

theorem splitOn_append (sep : Char) (cs cs' : List Char) :
    splitOn sep (cs ++ sep :: cs') = splitOn sep cs ++ splitOn sep cs' := by
  simp only [splitOn_eq, List.splitOn_append_cons_self]

theorem mem_of_mem_splitOn {piece : List Char} (h : piece ∈ splitOn sep cs) {c : Char}
    (hc : c ∈ piece) : c ∈ cs ∧ c ≠ sep := by
  induction cs generalizing piece with
  | nil =>
    rw [splitOn, List.mem_singleton] at h
    subst h
    exact absurd hc List.not_mem_nil
  | cons d cs ih =>
    have hrest : ∀ piece ∈ splitOn sep cs, c ∈ piece → c ∈ d :: cs ∧ c ≠ sep := by
      intro piece hpiece hc
      obtain ⟨hmem, hne⟩ := ih hpiece hc
      exact ⟨List.mem_cons_of_mem d hmem, hne⟩
    rw [splitOn] at h
    rcases hsplit : splitOn sep cs with _ | ⟨first, rest⟩
    · exact absurd hsplit (splitOn_ne_nil sep cs)
    rw [hsplit] at h hrest
    simp only at h
    by_cases hd : d = sep
    · rw [if_pos hd, List.mem_cons] at h
      rcases h with rfl | h
      · exact absurd hc List.not_mem_nil
      · exact hrest piece h hc
    · rw [if_neg hd, List.mem_cons] at h
      rcases h with rfl | h
      · rcases List.mem_cons.1 hc with rfl | hc
        · exact ⟨List.mem_cons_self, hd⟩
        · exact hrest first List.mem_cons_self hc
      · exact hrest piece (List.mem_cons_of_mem first h) hc

theorem mem_intercalate {seps : List Char} {c : Char} : ∀ {pieces : List (List Char)},
    c ∈ List.intercalate seps pieces → c ∈ seps ∨ ∃ piece ∈ pieces, c ∈ piece
  | [], h => absurd h List.not_mem_nil
  | [piece], h => by
    rw [List.intercalate_singleton] at h
    exact .inr ⟨piece, List.mem_cons_self, h⟩
  | piece :: next :: pieces, h => by
    rw [List.intercalate_cons_cons, List.mem_append, List.mem_append] at h
    rcases h with (h | h) | h
    · exact .inr ⟨piece, List.mem_cons_self, h⟩
    · exact .inl h
    · rcases mem_intercalate h with h | ⟨other, hother, h⟩
      · exact .inl h
      · exact .inr ⟨other, List.mem_cons_of_mem piece hother, h⟩

theorem mem_of_mem_stripBy {p : Char → Bool} {c : Char} (h : c ∈ stripBy p cs) : c ∈ cs := by
  rw [stripBy, List.mem_reverse] at h
  have hfront := (List.dropWhile_sublist p).subset h
  exact (List.dropWhile_sublist p).subset (List.mem_reverse.1 hfront)

end CameraFleet.Text
