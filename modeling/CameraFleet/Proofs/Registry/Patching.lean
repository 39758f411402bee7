import CameraFleet.Proofs.Camera.Settled

/-!
# What a patch does to a camera

A patch names a known format or none, and its quality passes the policy or is missing: then the
camera is stored with both and brought up to date (`patched_ok`). Otherwise it is refused, first
for its format and then, under the strict policy alone, for its quality; a patch to a known camera
fails in no other way (`patched_error`).
-/

namespace CameraFleet.Registry

variable {policy : Policy} {options : Options} {index : Ident} {c d : Camera}

/-- The camera with a format made active, or with the one it has. -/
def withFormat (c : Camera) (format : Option Ident) : Camera :=
  { c with activeFormat := format.getD c.activeFormat }

theorem switchFormat_of_known {format : Option Ident}
    (h : ∀ id, format = some id → (c.format? id).isSome) :
    switchFormat index c format = .ok (withFormat c format) := by
  rcases format with _ | id
  · rfl
  · obtain ⟨f, hf⟩ := Option.isSome_iff_exists.1 (h id rfl)
    simp only [switchFormat, hf, withFormat, Option.getD_some, (Camera.format?_some hf).2]

theorem switchFormat_of_unknown {id : Ident} (h : c.format? id = none) :
    switchFormat index c (some id) = .error (.invalidFormat index id) := by
  simp only [switchFormat, h]

/-- A quality that the active format allows, or that no range judges, is stored as it is. -/
theorem resolveQuality_of_legal {q : UInt32}
    (h : ∀ r, c.active?.bind ImageFormat.quality = some r → r.contains q) :
    resolveQuality policy c q = .ok q := by
  unfold resolveQuality
  split
  · rfl
  · rw [if_pos (h _ ‹_›)]

/-- A quality outside the range of the active format is what the policy makes of it. -/
theorem resolveQuality_of_illegal {q : UInt32} {r : QualityRange}
    (hr : c.active?.bind ImageFormat.quality = some r) (hq : r.contains q = false) :
    resolveQuality policy c q = match policy with
      | .permissive => .ok q
      | .strict => .error (.invalidQuality c.index q r.min r.max)
      | .clamp => .ok (r.nearest q) := by
  cases policy <;> simp only [resolveQuality, hr, hq, Bool.false_eq_true, ↓reduceIte]

/-- The policy refuses a quality for a range of the active format. -/
def Refuses (policy : Policy) (c : Camera) (q : UInt32) (r : QualityRange) : Prop :=
  policy = .strict ∧ c.active?.bind ImageFormat.quality = some r ∧ r.contains q = false

theorem resolveQuality_error {q : UInt32} {e : Failure} :
    resolveQuality policy c q = .error e ↔
      ∃ r, Refuses policy c q r ∧ e = .invalidQuality c.index q r.min r.max := by
  constructor
  · intro h
    unfold resolveQuality at h
    split at h
    · simp at h
    · rename_i r hr
      split_ifs at h with hq
      split at h
      · simp at h
      · exact ⟨r, ⟨rfl, hr, by simpa using hq⟩, (Except.error.inj h).symm⟩
      · simp at h
  · rintro ⟨r, ⟨rfl, hr, hq⟩, rfl⟩
    rw [resolveQuality_of_illegal hr hq]

theorem setQuality_error {quality : Option UInt32} {e : Failure} :
    setQuality policy c quality = .error e ↔
      ∃ q r, quality = some q ∧ Refuses policy c q r ∧
        e = .invalidQuality c.index q r.min r.max := by
  rcases quality with _ | q
  · simp [setQuality]
  · simp only [setQuality, Option.some.injEq, exists_and_left, exists_eq_left']
    rw [← resolveQuality_error]
    rcases resolveQuality policy c q with e' | v
    · simp only [Except.error.injEq]
    · simp only [reduceCtorEq]

theorem setQuality_ok {quality : Option UInt32} (h : setQuality policy c quality = .ok d) :
    ∃ stored, d = { c with quality := stored } ∧ (quality = none → stored = c.quality) ∧
      ∀ q, quality = some q → ∃ v, resolveQuality policy c q = .ok v ∧ stored = some v := by
  rcases quality with _ | q
  · simp only [setQuality, Except.ok.injEq] at h
    exact ⟨c.quality, h.symm, fun _ => rfl, by simp⟩
  · simp only [setQuality] at h
    split at h
    · rename_i v hv
      simp only [Except.ok.injEq] at h
      exact ⟨some v, h.symm, by simp, fun q' hq' => ⟨v, Option.some.inj hq' ▸ hv, rfl⟩⟩
    · simp at h

/-- A patch that is applied: the format is known, and the camera with it and the quality that is
stored is brought up to date. -/
theorem patched_ok {p : Patch} (h : patched options index c p = .ok d) :
    (∀ id, p.format = some id → (c.format? id).isSome) ∧
      ∃ e, setQuality options.policy (withFormat c p.format) p.quality = .ok e ∧
        d = e.refreshed options.preview := by
  unfold patched at h
  have hknown : ∀ id, p.format = some id → (c.format? id).isSome := by
    intro id hid
    rcases hf : c.format? id with _ | f
    · rw [hid, switchFormat_of_unknown hf] at h
      simp at h
    · rfl
  refine ⟨hknown, ?_⟩
  rw [switchFormat_of_known hknown] at h
  simp only at h
  split at h
  · simp at h
  · rename_i e he
    exact ⟨e, he, (Except.ok.inj h).symm⟩

/-- A patch to a known camera is refused for an unknown format, or else for its quality. -/
theorem patched_error {p : Patch} {e : Failure} : patched options index c p = .error e ↔
    (∃ id, p.format = some id ∧ c.format? id = none ∧ e = .invalidFormat index id) ∨
      ((∀ id, p.format = some id → (c.format? id).isSome) ∧
        ∃ q r, p.quality = some q ∧ Refuses options.policy (withFormat c p.format) q r ∧
          e = .invalidQuality c.index q r.min r.max) := by
  by_cases hknown : ∀ id, p.format = some id → (c.format? id).isSome
  · have hno : ¬ ∃ id, p.format = some id ∧ c.format? id = none ∧ e = .invalidFormat index id := by
      rintro ⟨id, hid, hf, -⟩
      simpa [hf] using hknown id hid
    unfold patched
    rw [switchFormat_of_known hknown]
    simp only [hno, false_or]
    rw [and_iff_right hknown, ← show (withFormat c p.format).index = c.index from rfl,
      ← setQuality_error]
    split
    · rename_i h
      rw [h]
    · rename_i h
      simp [h]
  · push Not at hknown
    obtain ⟨id, hid, hf⟩ := hknown
    simp only [Option.isSome_iff_ne_none, ne_eq, not_not] at hf
    unfold patched
    rw [hid, switchFormat_of_unknown hf]
    simp only [Except.error.injEq, Option.some.injEq]
    constructor
    · rintro rfl
      exact Or.inl ⟨id, rfl, hf, rfl⟩
    · rintro (⟨_, rfl, -, rfl⟩ | ⟨hk, -⟩)
      · rfl
      · simpa [hf] using hk id rfl

theorem sameDevice_patched {p : Patch} (h : patched options index c p = .ok d) :
    d.SameDevice c := by
  obtain ⟨-, e, he, rfl⟩ := patched_ok h
  obtain ⟨stored, rfl, -⟩ := setQuality_ok he
  exact (Camera.sameDevice_refreshed _ _).trans ⟨rfl, rfl, rfl, rfl⟩

theorem isSettled_patched {p : Patch} (hc : c.IsSettled options.preview)
    (h : patched options index c p = .ok d) : d.IsSettled options.preview := by
  obtain ⟨hnd, hq, f, hf, -⟩ := (Camera.flaw?_eq_none_iff c).1 hc.sound
  obtain ⟨hknown, e, he, rfl⟩ := patched_ok h
  obtain ⟨stored, rfl, -⟩ := setQuality_ok he
  have hactive : ∃ g, c.format? (p.format.getD c.activeFormat) = some g := by
    rcases hpf : p.format with _ | id
    · exact ⟨f, hf⟩
    · exact Option.isSome_iff_exists.1 (hknown id hpf)
  obtain ⟨g, hg⟩ := hactive
  exact Camera.isSettled_refreshed hnd hq hg

theorem patched_empty (hc : c.IsSettled options.preview) :
    patched options index c .empty = .ok c := by
  simp only [patched, Patch.empty, switchFormat, setQuality, hc.refreshed_eq]

/-! ## Patches to the registry -/

theorem apply_of_unknown {r : Registry} (h : r.get? index = none) (p : Patch) :
    r.apply index p = (.error (.notFound index), r) := by
  simp only [apply, h]

theorem apply_of_error {r : Registry} {p : Patch} {e : Failure} (h : r.get? index = some c)
    (he : patched r.options index c p = .error e) : r.apply index p = (.error e, r) := by
  simp only [apply, h, he]

theorem apply_of_ok {r : Registry} {p : Patch} (h : r.get? index = some c)
    (hd : patched r.options index c p = .ok d) :
    r.apply index p = (.ok d, r.replace index d) := by
  simp only [apply, h, hd]

/-- A patch is refused and changes nothing, or replaces one camera. -/
theorem apply_cases (r : Registry) (index : Ident) (p : Patch) :
    (∃ e, r.apply index p = (.error e, r)) ∨
      ∃ c d, r.get? index = some c ∧ patched r.options index c p = .ok d ∧
        r.apply index p = (.ok d, r.replace index d) := by
  rcases h : r.get? index with _ | c
  · exact Or.inl ⟨_, apply_of_unknown h p⟩
  · rcases hd : patched r.options index c p with e | d
    · exact Or.inl ⟨e, apply_of_error h hd⟩
    · exact Or.inr ⟨c, d, rfl, hd, apply_of_ok h hd⟩

@[simp] theorem apply_options (r : Registry) (index : Ident) (p : Patch) :
    (r.apply index p).2.options = r.options := by
  rcases apply_cases r index p with ⟨e, h⟩ | ⟨c, d, -, -, h⟩ <;> rw [h]
  rfl

end CameraFleet.Registry
