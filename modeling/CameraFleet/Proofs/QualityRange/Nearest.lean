import Mathlib.Data.Nat.Dist
import CameraFleet.Proofs.QualityRange
import CameraFleet.QualityRange.InWords

/-!
# The nearest legal quality

In a range whose bounds are in order every legal value is either not above the last step below
the clipped value or not below the step after it (`le_lastStep_or_add_le`). The nearest quality
is one of these two, so no legal value is nearer, and of two as near it is the lower one
(`dist_nearest_le`). From this alone it follows that legal values stay as they are
(`nearest_eq_self_iff`) and that the order of values is kept (`nearest_mono`).

In the arithmetic of words the check of a value and that of a range never fail, whatever the
range is (`InWords.contains?_eq`, `InWords.flaw?_eq`). The nearest quality is found if the bounds
are in order and the step after the last one is a word (`InWords.nearest?_eq`).
-/

namespace CameraFleet.QualityRange

variable {r : QualityRange} {v w : UInt32} {k : Nat}

/-- The value itself if it lies between the bounds, and else the bound on its side. -/
def clip (r : QualityRange) (v : UInt32) : UInt32 :=
  if v < r.min then r.min else if r.max < v then r.max else v

/-- The last value, in strides of `k` from the lower bound, that is not above the clipped one. -/
def lastStep (r : QualityRange) (k : Nat) (v : UInt32) : Nat :=
  r.min.toNat + ((r.clip v).toNat - r.min.toNat) / k * k

/-- The step above the clipped value, where the range has steps, is a word. -/
def NextStepFits (r : QualityRange) (v : UInt32) : Prop :=
  ∀ k, r.stride? = some k → r.lastStep k v + k < UInt32.size

/-! ## Steps -/

theorem stride?_eq (r : QualityRange) : r.stride? = (InWords.step? r).map UInt32.toNat := by
  rcases hstep : r.step with _ | step
  · simp [stride?, InWords.step?, hstep]
  · have hzero : step.toNat = 0 ↔ step = 0 := by rw [← UInt32.toNat_inj]; rfl
    by_cases h : step = 0
    · simp [stride?, InWords.step?, hstep, h]
    · have hpos : 0 < step := UInt32.pos_iff_ne_zero.2 h
      simp [stride?, InWords.step?, hstep, h, hzero, hpos]

theorem InWords.step_ne_zero {step : UInt32} (h : InWords.step? r = some step) : step ≠ 0 := by
  have hpos : 0 < step := by simpa using (Option.filter_eq_some_iff.1 h).2
  exact UInt32.pos_iff_ne_zero.1 hpos

theorem stride_pos (hk : r.stride? = some k) : 0 < k := by
  rw [stride?_eq, Option.map_eq_some_iff] at hk
  obtain ⟨step, hstep, rfl⟩ := hk
  exact UInt32.lt_iff_toNat_lt.1 (UInt32.pos_iff_ne_zero.2 (InWords.step_ne_zero hstep))

theorem toNat_clip_mem (h : r.min ≤ r.max) (v : UInt32) :
    r.min.toNat ≤ (r.clip v).toNat ∧ (r.clip v).toNat ≤ r.max.toNat := by
  unfold clip
  split_ifs <;> simp only [UInt32.le_iff_toNat_le, UInt32.lt_iff_toNat_lt] at * <;> omega

theorem lastStep_le_clip (h : r.min ≤ r.max) : r.lastStep k v ≤ (r.clip v).toNat := by
  have hclip := toNat_clip_mem h v
  have hdiv := Nat.div_mul_le_self ((r.clip v).toNat - r.min.toNat) k
  unfold lastStep
  omega

theorem clip_lt_lastStep_add (hk : 0 < k) : (r.clip v).toNat < r.lastStep k v + k := by
  have hdiv := Nat.lt_div_mul_add hk (a := (r.clip v).toNat - r.min.toNat)
  unfold lastStep
  omega

/-- No legal value lies between the two steps around a clipped value. -/
theorem le_lastStep_or_add_le (hk : r.stride? = some k) (hw : r.contains w = true) :
    w.toNat ≤ r.lastStep k v ∨ r.lastStep k v + k ≤ w.toNat := by
  obtain ⟨hmin, -, hsteps⟩ := contains_iff.1 hw
  obtain ⟨j, hj⟩ := hsteps k hk
  rw [Nat.mul_comm] at hj
  unfold lastStep
  rcases Nat.lt_or_ge (((r.clip v).toNat - r.min.toNat) / k) j with hlt | hge
  · have := Nat.mul_le_mul_right k (Nat.succ_le_of_lt hlt)
    rw [Nat.succ_mul] at this
    omega
  · have := Nat.mul_le_mul_right k hge
    omega

/-! ## The nearest legal value -/

theorem nearest_of_stride?_none (hk : r.stride? = none) : r.nearest v = r.clip v := by
  simp only [nearest, hk, clip]

/-- The step above is taken if it is no further than the upper bound and nearer. -/
theorem toNat_nearest (h : r.min ≤ r.max) (hk : r.stride? = some k) (v : UInt32) :
    (r.nearest v).toNat =
      if r.lastStep k v + k ≤ r.max.toNat ∧
          r.lastStep k v + k - (r.clip v).toNat < (r.clip v).toNat - r.lastStep k v then
        r.lastStep k v + k
      else r.lastStep k v := by
  have hlast := lastStep_le_clip h (k := k) (v := v)
  have hclip := (toNat_clip_mem h v).2
  have hsize := r.max.toNat_lt
  have hnearest : r.nearest v = UInt32.ofNat
      (if r.lastStep k v + k ≤ r.max.toNat ∧
          r.lastStep k v + k - (r.clip v).toNat < (r.clip v).toNat - r.lastStep k v then
        r.lastStep k v + k
      else r.lastStep k v) := by
    simp only [nearest, hk]
    rfl
  rw [hnearest]
  refine UInt32.toNat_ofNat_of_lt' (lt_of_le_of_lt ?_ hsize)
  split_ifs with habove
  · exact habove.1
  · exact hlast.trans hclip

/-- No legal value is nearer than the nearest one, and none that is as near is lower. -/
theorem dist_nearest_le (h : r.min ≤ r.max) (v : UInt32) (hw : r.contains w = true) :
    Nat.dist v.toNat (r.nearest v).toNat ≤ Nat.dist v.toNat w.toNat ∧
      (Nat.dist v.toNat (r.nearest v).toNat = Nat.dist v.toNat w.toNat → r.nearest v ≤ w) := by
  obtain ⟨hmin, hmax, -⟩ := contains_iff.1 hw
  have hclip : (r.clip v).toNat =
      if v.toNat < r.min.toNat then r.min.toNat
      else if r.max.toNat < v.toNat then r.max.toNat else v.toNat := by
    simp only [clip, UInt32.lt_iff_toNat_lt, apply_ite UInt32.toNat]
  rw [UInt32.le_iff_toNat_le]
  unfold Nat.dist
  rcases hk : r.stride? with _ | k
  · rw [nearest_of_stride?_none hk, hclip]
    split_ifs <;> omega
  · have hlast := lastStep_le_clip h (k := k) (v := v)
    have hlow : r.min.toNat ≤ r.lastStep k v := Nat.le_add_right _ _
    have hnext := clip_lt_lastStep_add (r := r) (v := v) (stride_pos hk)
    have hgap := le_lastStep_or_add_le (v := v) hk hw
    rw [toNat_nearest h hk]
    split_ifs at hclip ⊢ <;> omega

theorem nearest_eq_self_iff (h : r.min ≤ r.max) : r.nearest v = v ↔ r.contains v = true := by
  constructor
  · intro hv
    rw [← hv]
    exact contains_nearest h v
  · intro hv
    have hle := (dist_nearest_le h v hv).1
    rw [Nat.dist_self, Nat.le_zero] at hle
    exact (UInt32.toNat_inj.1 (Nat.eq_of_dist_eq_zero hle)).symm

/-- If the nearest values changed places, one of them would not be the nearest. -/
theorem nearest_mono (h : r.min ≤ r.max) (hvw : v ≤ w) : r.nearest v ≤ r.nearest w := by
  obtain ⟨hle, htie⟩ := dist_nearest_le h v (contains_nearest h w)
  obtain ⟨hle', -⟩ := dist_nearest_le h w (contains_nearest h v)
  simp only [UInt32.le_iff_toNat_le, Nat.dist] at *
  omega

/-! ## In the arithmetic of words -/

namespace InWords

/-- From the lower bound on, the steps to a value can be counted. -/
theorem isReachable?_of_le (h : r.min ≤ v) : isReachable? r v = some (r.isReachable v) := by
  unfold isReachable? isReachable
  rw [stride?_eq]
  rcases hstep : step? r with _ | step
  · rfl
  · have hne := step_ne_zero hstep
    obtain ⟨offset, hoffset, htoNat⟩ := Word.sub?_of_le h
    obtain ⟨rest, hrest, htoNat'⟩ := Word.mod?_of_ne_zero (a := offset) hne
    have hzero : rest = 0 ↔ rest.toNat = 0 := UInt32.toNat_inj.symm
    simp [hoffset, hrest, hzero, htoNat', htoNat]

/-- The check of a value never fails: below the lower bound no steps are counted. -/
theorem contains?_eq (r : QualityRange) (v : UInt32) : contains? r v = some (r.contains v) := by
  unfold contains? contains
  split_ifs with hmin hmax
  · simp [hmin, hmax, isReachable?_of_le hmin]
  · simp [hmax]
  · simp [hmin]

/-- Without the bound in front, the steps to a value below it would be counted. -/
example : isReachable? ⟨50, 100, some 5, none⟩ 45 = none := by decide

/-- The check of a range never fails: a default is looked at only if it is between the bounds. -/
theorem flaw?_eq (r : QualityRange) : flaw? r = some r.flaw? := by
  unfold flaw? QualityRange.flaw?
  split_ifs with hbounds hstep
  · rfl
  · rfl
  · rcases r.default with _ | d
    · rfl
    · simp only
      by_cases houtside : d < r.min ∨ r.max < d
      · rw [if_pos houtside, if_pos houtside]
      · have hmin : r.min ≤ d := UInt32.not_lt.1 fun hlt => houtside (Or.inl hlt)
        rw [if_neg houtside, if_neg houtside, isReachable?_of_le hmin]
        rcases r.isReachable d <;> rfl

theorem clamp?_eq (h : r.min ≤ r.max) : Word.clamp? v r.min r.max = some (r.clip v) :=
  if_pos h

/-- No operation on the way to the last step leaves the words, as it is not above the value. -/
theorem exists_lastStep? {step : UInt32} (h : r.min ≤ r.max) (hstep : step ≠ 0) :
    ∃ below, lastStep? r step (r.clip v) = some below ∧
      below.toNat = r.lastStep step.toNat v := by
  have hclip := toNat_clip_mem h v
  have hsize := (r.clip v).toNat_lt
  have hdiv := Nat.div_mul_le_self ((r.clip v).toNat - r.min.toNat) step.toNat
  obtain ⟨offset, hoffset, toNat_offset⟩ := Word.sub?_of_le (UInt32.le_iff_toNat_le.2 hclip.1)
  obtain ⟨steps, hsteps, toNat_steps⟩ := Word.div?_of_ne_zero (a := offset) hstep
  rw [toNat_offset] at toNat_steps
  rw [← toNat_steps] at hdiv
  obtain ⟨height, hheight, toNat_height⟩ := Word.mul?_of_lt (a := steps) (b := step)
    (by simp only [UInt32.size]; omega)
  obtain ⟨below, hbelow, toNat_below⟩ := Word.add?_of_lt (a := r.min) (b := height)
    (by simp only [UInt32.size]; omega)
  refine ⟨below, by simp [lastStep?, hoffset, hsteps, hheight, hbelow], ?_⟩
  rw [toNat_below, toNat_height, toNat_steps]
  rfl

/-- The nearest value is found in words wherever the step above is one. -/
theorem nearest?_eq (h : r.min ≤ r.max) (hfits : r.NextStepFits v) :
    nearest? r v = some (r.nearest v) := by
  unfold nearest?
  rw [clamp?_eq h, Option.bind_eq_bind, Option.bind_some]
  rcases hstep : step? r with _ | step
  · rw [nearest_of_stride?_none (by rw [stride?_eq, hstep]; rfl)]
    rfl
  · have hne := step_ne_zero hstep
    have hk : r.stride? = some step.toNat := by rw [stride?_eq, hstep]; rfl
    have hlast := lastStep_le_clip h (k := step.toNat) (v := v)
    have hnext := clip_lt_lastStep_add (r := r) (v := v) (stride_pos hk)
    obtain ⟨below, hbelow, toNat_below⟩ := exists_lastStep? (v := v) h hne
    rw [← toNat_below] at hlast hnext
    obtain ⟨above, habove, toNat_above⟩ := Word.add?_of_lt (a := below) (b := step)
      (by rw [toNat_below]; exact hfits _ hk)
    obtain ⟨up, hup, toNat_up⟩ := Word.sub?_of_le (a := above) (b := r.clip v)
      (UInt32.le_iff_toNat_le.2 (by omega))
    obtain ⟨down, hdown, toNat_down⟩ := Word.sub?_of_le (UInt32.le_iff_toNat_le.2 hlast)
    have hnearest := toNat_nearest h hk v
    simp only [← toNat_below, ← toNat_above, ← toNat_up, ← toNat_down] at hnearest
    simp only [hbelow, habove, hup, hdown, Option.bind_some, Option.pure_def,
      UInt32.le_iff_toNat_le, UInt32.lt_iff_toNat_lt]
    split_ifs with hmax hup <;> rw [Option.some.injEq, ← UInt32.toNat_inj, hnearest]
    · exact (if_pos ⟨hmax, hup⟩).symm
    · exact (if_neg fun hboth => hup hboth.2).symm
    · exact (if_neg fun hboth => hmax hboth.1).symm

end InWords

/-! ## The projection -/

/-- In words, the checks of values and of ranges never fail. In a range without a flaw, wherever
the step above a value is a word, the nearest value is found and is legal; no legal value is
nearer, and none that is as near is lower; it is the value itself just for legal ones, and a
higher value has no lower one. -/
theorem nearest_projects (r : QualityRange) :
    (∀ v, InWords.contains? r v = some (r.contains v)) ∧ InWords.flaw? r = some r.flaw? ∧
    (r.flaw? = none → ∀ v, r.NextStepFits v →
      InWords.nearest? r v = some (r.nearest v) ∧ r.clamp? v = some (r.nearest v) ∧
      r.contains (r.nearest v) = true ∧
      (∀ w, r.contains w = true →
        Nat.dist v.toNat (r.nearest v).toNat ≤ Nat.dist v.toNat w.toNat ∧
          (Nat.dist v.toNat (r.nearest v).toNat = Nat.dist v.toNat w.toNat →
            r.nearest v ≤ w)) ∧
      (r.nearest v = v ↔ r.contains v = true) ∧
      ∀ w, r.NextStepFits w → v ≤ w → r.nearest v ≤ r.nearest w) := by
  refine ⟨InWords.contains?_eq r, InWords.flaw?_eq r, fun hflaw v hfits => ?_⟩
  have h := min_le_max_of_flaw? hflaw
  exact ⟨InWords.nearest?_eq h hfits, clamp?_of_flaw? hflaw v, contains_nearest h v,
    fun w hw => dist_nearest_le h v hw, nearest_eq_self_iff h, fun w _ => nearest_mono h⟩

/-- Half-way between two steps, with the next but one beyond the words, the lower one is found. -/
theorem nearest_projects_halfway :
    let r : QualityRange := ⟨4294967200, 4294967290, some 20, some 4294967240⟩
    InWords.nearest? r 4294967270 = some 4294967260 ∧ r.contains 4294967280 = true ∧
      Nat.dist 4294967270 4294967260 = Nat.dist 4294967270 4294967280 ∧
      r.nearest 4294967270 ≤ r.nearest 4294967271 := by
  intro r
  have hstride : r.stride? = some 20 := by decide
  have hfits : ∀ v, r.lastStep 20 v = 4294967260 → r.NextStepFits v := by
    intro v hv k hk
    rw [← Option.some.inj (hstride.symm.trans hk), hv]
    decide
  have hlow := hfits 4294967270 (by decide)
  have hhigh := hfits 4294967271 (by decide)
  have hnearest : r.nearest 4294967270 = 4294967260 := by decide
  obtain ⟨hfound, -, -, -, -, hmono⟩ := (nearest_projects r).2.2 (by decide) 4294967270 hlow
  exact ⟨hnearest ▸ hfound, by decide, by decide, hmono _ hhigh (by decide)⟩

end CameraFleet.QualityRange
