/-!
# Small and capital letters

The letters of ASCII with the same case, and no other characters changed.
-/

namespace CameraFleet.Text

/-- The text with small letters. -/
def lower (s : String) : String :=
  String.ofList (s.toList.map Char.toLower)

/-- What holds of the characters with the first codes holds of ASCII. -/
theorem of_forall_ascii {P : Char → Prop} (h : ∀ n < 0x80, P (Char.ofNat n)) {c : Char}
    (hc : c.toNat < 0x80) : P c := by
  rw [← Char.ofNat_toNat c]
  exact h c.toNat hc

/-- Only small letters come from other characters when letters are made small. -/
theorem eq_of_toLower {c d : Char} (h : c.toLower = d) (hd : d.toNat < 97 ∨ 122 < d.toNat) :
    c = d := by
  subst h
  unfold Char.toLower at hd ⊢
  split at hd
  · rename_i hc
    have hge : 65 ≤ c.toNat := UInt32.le_iff_toNat_le.1 hc.1
    have hle : c.toNat ≤ 90 := UInt32.le_iff_toNat_le.1 hc.2
    have hsum : (c.val + ('a'.val - 'A'.val)).toNat = c.toNat + 32 := by
      rw [UInt32.toNat_add]
      exact Nat.mod_eq_of_lt (show c.toNat + 32 < 2 ^ 32 by omega)
    change (c.val + ('a'.val - 'A'.val)).toNat < 97 ∨ 122 < (c.val + ('a'.val - 'A'.val)).toNat
      at hd
    omega
  · rename_i hc
    rw [dif_neg hc]

end CameraFleet.Text
