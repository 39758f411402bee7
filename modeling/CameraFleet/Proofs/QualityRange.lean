import Mathlib.Tactic.Common
import CameraFleet.QualityRange

/-!
# Legal qualities

A quality is legal if it lies between the bounds, a whole number of strides above the lower one
(`contains_iff`). In a range whose bounds are in order the nearest quality is legal
(`contains_nearest`). A range has no flaw exactly when it is sound (`flaw?_eq_none_iff`), so the
bounds of one without a flaw are in order.
-/

namespace CameraFleet.QualityRange

variable {r : QualityRange} {v : UInt32}

theorem contains_iff : r.contains v = true ↔ r.min.toNat ≤ v.toNat ∧ v.toNat ≤ r.max.toNat ∧
    ∀ k, r.stride? = some k → k ∣ v.toNat - r.min.toNat := by
  simp only [contains, isReachable, Bool.and_eq_true, decide_eq_true_eq, and_assoc,
    UInt32.le_iff_toNat_le]
  rcases hs : r.stride? with _ | k
  · simp
  · simp [Nat.dvd_iff_mod_eq_zero]

/-- A value that some strides lead to from the lower bound, and not beyond the upper one. -/
theorem contains_ofNat {k j : Nat} (hk : r.stride? = some k)
    (h : r.min.toNat + j * k ≤ r.max.toNat) :
    r.contains (UInt32.ofNat (r.min.toNat + j * k)) = true := by
  have hsize := r.max.toNat_lt
  have hval : (UInt32.ofNat (r.min.toNat + j * k)).toNat = r.min.toNat + j * k :=
    UInt32.toNat_ofNat_of_lt' (by simp only [UInt32.size]; omega)
  rw [contains_iff, hval]
  refine ⟨by omega, h, fun k' hk' => ?_⟩
  rw [hk, Option.some.injEq] at hk'
  rw [← hk', Nat.add_sub_cancel_left]
  exact Nat.dvd_mul_left k j

theorem contains_nearest (h : r.min ≤ r.max) (v : UInt32) : r.contains (r.nearest v) = true := by
  unfold nearest
  extract_lets b offset
  have hb : r.min.toNat ≤ b.toNat ∧ b.toNat ≤ r.max.toNat := by
    simp only [b]
    split_ifs <;> simp only [UInt32.le_iff_toNat_le, UInt32.lt_iff_toNat_lt] at * <;> omega
  split
  · rename_i hs
    rw [contains_iff]
    exact ⟨hb.1, hb.2, by simp [hs]⟩
  · rename_i k hk
    extract_lets below above
    have hbelow : offset / k * k ≤ offset := Nat.div_mul_le_self offset k
    split_ifs with habove
    · have : above = r.min.toNat + (offset / k + 1) * k := by
        simp only [above, below, Nat.add_mul, Nat.one_mul]
        omega
      rw [this]
      exact contains_ofNat hk (by omega)
    · exact contains_ofNat hk (by omega)

/-- The bounds are in order, the step is one, and the default is a legal quality. -/
structure IsSound (r : QualityRange) : Prop where
  bounds : r.min ≤ r.max
  step : r.step ≠ some 0
  default : ∀ v, r.default = some v → r.contains v = true

theorem contains_iff_inside : r.contains v = true ↔
    ¬ (v < r.min ∨ r.max < v) ∧ r.isReachable v = true := by
  simp only [contains, Bool.and_eq_true, decide_eq_true_eq, not_or, UInt32.not_lt]

theorem flaw?_eq_none_iff : r.flaw? = none ↔ r.IsSound := by
  unfold flaw?
  split_ifs with hbounds hstep
  · exact iff_of_false (by simp) fun h => UInt32.not_lt.2 h.bounds hbounds
  · exact iff_of_false (by simp) fun h => h.step hstep
  · have hsound : r.IsSound ↔ ∀ v, r.default = some v → r.contains v = true :=
      ⟨fun h => h.default, fun h => ⟨UInt32.not_lt.1 hbounds, hstep, h⟩⟩
    rw [hsound]
    rcases r.default with _ | v
    · simp
    · simp only [Option.some.injEq, forall_eq', contains_iff_inside]
      split_ifs with houtside hreachable <;> simp [*]

theorem min_le_max_of_flaw? (h : r.flaw? = none) : r.min ≤ r.max :=
  (flaw?_eq_none_iff.1 h).bounds

theorem clamp?_of_flaw? (h : r.flaw? = none) (v : UInt32) : r.clamp? v = some (r.nearest v) :=
  if_pos (min_le_max_of_flaw? h)

end CameraFleet.QualityRange
