import Mathlib.Tactic.Common

/-!
# Texts by their bytes

A text in which every byte is a character is read off its bytes, which takes a fraction of the work
of decoding it (`characters_eq`). Long texts, such as whole files, are evaluated that way.
-/

namespace CameraFleet.Text

/-- A character all of whose bytes are below 128 has one byte: the first byte of a longer encoding
is at least 192. -/
theorem map_utf8EncodeChar {c : Char} (h : ∀ b ∈ String.utf8EncodeChar c, b < 0x80) :
    (String.utf8EncodeChar c).map (Char.ofNat ·.toNat) = [c] := by
  unfold String.utf8EncodeChar at *
  simp only at *
  split_ifs at * with hone htwo hthree
  · have hbyte : c.val.toNat % 256 = c.toNat := Nat.mod_eq_of_lt (by omega)
    rw [List.map_singleton, UInt8.toNat_ofNat', hbyte, Char.ofNat_toNat]
  all_goals
    have hlead := UInt8.lt_iff_toNat_lt.1 (h _ List.mem_cons_self)
    rw [UInt8.toNat_ofNat'] at hlead
    change _ < 128 at hlead
    omega

theorem toList_of_forall_lt {s : String} (h : ∀ b ∈ s.toByteArray.data.toList, b < 0x80) :
    s.toList = s.toByteArray.data.toList.map (Char.ofNat ·.toNat) := by
  have hbytes : s.toByteArray.data.toList = s.toList.flatMap String.utf8EncodeChar := by
    rw [← String.utf8Encode_toList]
    simp [List.utf8Encode]
  rw [hbytes] at h ⊢
  clear hbytes
  generalize s.toList = cs at h ⊢
  induction cs with
  | nil => rfl
  | cons c cs ih =>
    rw [List.flatMap_cons, List.forall_mem_append] at h
    rw [List.flatMap_cons, List.map_append, map_utf8EncodeChar h.1, ← ih h.2,
      List.singleton_append]

/-- The characters of a text, read off its bytes where every byte is one. -/
def characters (s : String) : List Char :=
  let bytes := s.toByteArray.data.toList
  if bytes.all (· < 0x80) then bytes.map (Char.ofNat ·.toNat) else s.toList

theorem characters_eq (s : String) : characters s = s.toList := by
  unfold characters
  dsimp only
  split_ifs with h
  · exact (toList_of_forall_lt fun b hb => of_decide_eq_true (List.all_eq_true.1 h b hb)).symm
  · rfl

end CameraFleet.Text
