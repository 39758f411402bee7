import CameraFleet.Proofs.Http.Form

/-!
# Texts with percent signs

A text is escaped once: where the percent sign and the hexadecimal digits are kept, escaping leaves
an escaped text as it is (`percentEncode_idem`). A text without percent signs stands for itself
(`decodeLossy_percentDecode`).
-/

namespace CameraFleet.Text

variable {keep : Char → Bool} {cs : List Char} {c : Char}

/-- A character of an escape. -/
def IsEscapeText (c : Char) : Prop := c = '%' ∨ ∃ d < 16, c = hexDigitUpper d

theorem isEscapeText_of_mem {d : Char} (h : c ∈ percentEscapeChar d) : IsEscapeText c := by
  obtain ⟨b, -, h⟩ := List.mem_flatMap.1 h
  have hb := b.toNat_lt
  simp only [percentEscape, List.mem_cons, List.not_mem_nil, or_false] at h
  rcases h with rfl | rfl | rfl
  · exact .inl rfl
  · exact .inr ⟨_, by omega, rfl⟩
  · exact .inr ⟨_, by omega, rfl⟩

theorem mem_percentEncode (h : c ∈ percentEncode keep cs) :
    (keep c = true ∧ c ∈ cs) ∨ IsEscapeText c := by
  obtain ⟨d, hd, h⟩ := List.mem_flatMap.1 h
  split_ifs at h with hkeep
  · obtain rfl := List.mem_singleton.1 h
    exact .inl ⟨hkeep, hd⟩
  · exact .inr (isEscapeText_of_mem h)

theorem percentEncode_eq_self (h : ∀ c ∈ cs, keep c = true) : percentEncode keep cs = cs := by
  induction cs with
  | nil => rfl
  | cons c cs ih =>
    obtain ⟨hc, hcs⟩ := List.forall_mem_cons.1 h
    rw [percentEncode, List.flatMap_cons, if_pos hc, ← percentEncode, ih hcs,
      List.singleton_append]

theorem percentEncode_ne_nil (h : cs ≠ []) : percentEncode keep cs ≠ [] := by
  obtain ⟨c, cs, rfl⟩ := List.exists_cons_of_ne_nil h
  rw [percentEncode, List.flatMap_cons]
  split_ifs
  · exact List.cons_ne_nil _ _
  · obtain ⟨b, bs, hbytes⟩ := List.exists_cons_of_ne_nil (String.utf8EncodeChar_ne_nil (c := c))
    rw [percentEscapeChar, hbytes]
    exact List.cons_ne_nil _ _

/-- The characters of escapes are kept. -/
def KeepsEscapes (keep : Char → Bool) : Prop :=
  keep '%' = true ∧ ∀ d < 16, keep (hexDigitUpper d) = true

instance (keep : Char → Bool) : Decidable (KeepsEscapes keep) :=
  inferInstanceAs (Decidable (_ ∧ _))

theorem KeepsEscapes.keep_of_mem (hkeep : KeepsEscapes keep) (h : c ∈ percentEncode keep cs) :
    keep c = true := by
  rcases mem_percentEncode h with ⟨h, -⟩ | rfl | ⟨d, hd, rfl⟩
  · exact h
  · exact hkeep.1
  · exact hkeep.2 d hd

theorem KeepsEscapes.percentEncode_idem (hkeep : KeepsEscapes keep) :
    percentEncode keep (percentEncode keep cs) = percentEncode keep cs :=
  percentEncode_eq_self fun _ => hkeep.keep_of_mem

theorem percentDecode_of_not_mem (h : '%' ∉ cs) :
    percentDecode cs = cs.flatMap String.utf8EncodeChar := by
  induction cs with
  | nil => rfl
  | cons c cs ih =>
    obtain ⟨hc, hcs⟩ := not_or.1 (mt List.mem_cons.2 h)
    rw [percentDecode_cons (Ne.symm hc), ih hcs, List.flatMap_cons]

theorem decodeLossy_utf8EncodeChar (cs : List Char) :
    Utf8.decodeLossy ⟨(cs.flatMap String.utf8EncodeChar).toArray⟩ = String.ofList cs := by
  have hbytes : (⟨(cs.flatMap String.utf8EncodeChar).toArray⟩ : ByteArray) =
      (String.ofList cs).toUTF8 := by
    rw [String.toUTF8_eq_toByteArray, ← String.utf8Encode_toList, String.toList_ofList,
      List.utf8Encode]
    exact ByteArray.ext List.data_toByteArray.symm
  rw [hbytes, Utf8.decodeLossy_toUTF8]

theorem decodeLossy_percentDecode (h : '%' ∉ cs) :
    Utf8.decodeLossy ⟨(percentDecode cs).toArray⟩ = String.ofList cs := by
  rw [percentDecode_of_not_mem h, decodeLossy_utf8EncodeChar]

end CameraFleet.Text
