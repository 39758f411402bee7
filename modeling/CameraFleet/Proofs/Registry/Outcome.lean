import CameraFleet.Proofs.Registry.Seeding

/-!
# What a patch is answered with

A patch names a format that its camera knows, or it is refused for the format; then the policy
lets the quality pass for the format that becomes active, or it is refused for the quality
(`exists_patched_iff` and the lemmas before it). What a patch leaves out stays as it is, with all
that is shown of it (`patched_of_format_none`). Together with the look-up of the camera this
settles the answer to every patch, and who sees it (`apply_exact`).
-/

namespace CameraFleet

/-- What is settled about a camera has nothing to do with its quality. -/
theorem Camera.IsSettled.withQuality {c : Camera} {preview : Preview} (h : c.IsSettled preview)
    (quality : Option UInt32) : { c with quality := quality }.IsSettled preview :=
  ⟨h.sound, h.active, h.src⟩

namespace Registry

variable {r : Registry} {seeds : List Camera} {options : Options} {i k : Ident} {c d : Camera}
  {p : Patch}

/-- A camera knows the format that a patch names, if it names one. -/
def Knows (c : Camera) (p : Patch) : Prop :=
  ∀ id, p.format = some id → id ∈ c.formats.map (·.id)

/-- The policy refuses the quality that a patch asks for, by the range of the format that becomes
active. -/
def RefusesQuality (policy : Policy) (c : Camera) (p : Patch) (q : UInt32) (range : QualityRange) :
    Prop :=
  p.quality = some q ∧ Refuses policy (withFormat c p.format) q range

theorem knows_iff : Knows c p ↔ ∀ id, p.format = some id → (c.format? id).isSome := by
  simp only [Knows, Camera.format?_isSome_iff]

/-! ## The camera -/

theorem patched_eq_invalidFormat_iff {id : Ident} :
    patched options i c p = .error (.invalidFormat k id) ↔
      k = i ∧ p.format = some id ∧ id ∉ c.formats.map (·.id) := by
  rw [patched_error]
  constructor
  · rintro (⟨id', hid, hf, he⟩ | ⟨-, q, range, -, -, he⟩)
    · cases he
      exact ⟨rfl, hid, Camera.format?_eq_none_iff.1 hf⟩
    · cases he
  · rintro ⟨rfl, hid, hf⟩
    exact Or.inl ⟨id, hid, Camera.format?_eq_none_iff.2 hf, rfl⟩

theorem patched_eq_invalidQuality_iff {q min max : UInt32} :
    patched options i c p = .error (.invalidQuality k q min max) ↔
      k = c.index ∧ Knows c p ∧
        ∃ range, RefusesQuality options.policy c p q range ∧ min = range.min ∧ max = range.max := by
  rw [patched_error, ← knows_iff]
  constructor
  · rintro (⟨id, -, -, he⟩ | ⟨hknows, q', range, hq, hrefuses, he⟩)
    · cases he
    · cases he
      exact ⟨rfl, hknows, range, ⟨hq, hrefuses⟩, rfl, rfl⟩
  · rintro ⟨rfl, hknows, range, ⟨hq, hrefuses⟩, rfl, rfl⟩
    exact Or.inr ⟨hknows, q, range, hq, hrefuses, rfl⟩

theorem exists_patched_iff : (∃ d, patched options i c p = .ok d) ↔
    Knows c p ∧ ∀ q range, ¬ RefusesQuality options.policy c p q range := by
  rcases hpatched : patched options i c p with e | d
  · simp only [reduceCtorEq, exists_false, false_iff, not_and, not_forall, not_not]
    intro hknows
    rcases patched_error.1 hpatched with ⟨id, hid, hf, -⟩ | ⟨-, q, range, hq, hrefuses, -⟩
    · exact absurd (hknows id hid) (Camera.format?_eq_none_iff.1 hf)
    · exact ⟨q, range, hq, hrefuses⟩
  · simp only [Except.ok.injEq, exists_eq', true_iff]
    have hknows := knows_iff.2 (patched_ok hpatched).1
    refine ⟨hknows, fun q range hrefuses => ?_⟩
    have herror : patched options i c p =
        .error (.invalidQuality c.index q range.min range.max) :=
      patched_eq_invalidQuality_iff.2 ⟨rfl, hknows, range, hrefuses, rfl, rfl⟩
    exact absurd (herror.symm.trans hpatched) (by simp)

/-- Without another format a settled camera changes in nothing but its quality. -/
theorem patched_of_format_none (hc : c.IsSettled options.preview)
    (h : patched options i c p = .ok d) (hp : p.format = none) :
    d = { c with quality := d.quality } := by
  obtain ⟨-, e, he, rfl⟩ := patched_ok h
  obtain ⟨stored, rfl, -⟩ := setQuality_ok he
  have hkept : withFormat c p.format = c := by rw [hp]; rfl
  rw [hkept, (hc.withQuality stored).refreshed_eq]

/-! ## The registry -/

theorem apply_fst_of_known (h : r.get? i = some c) (p : Patch) :
    (r.apply i p).1 = patched r.options i c p := by
  rcases hd : patched r.options i c p with e | d
  · rw [apply_of_error h hd]
  · rw [apply_of_ok h hd]

theorem apply_eq_notFound_iff :
    (r.apply i p).1 = .error (.notFound k) ↔ k = i ∧ r.contains i = false := by
  rcases hget : r.get? i with _ | c
  · simp [apply_of_unknown hget, contains, hget, eq_comm]
  · simp only [apply_fst_of_known hget, contains, hget, Option.isSome_some, Bool.true_eq_false,
      and_false, iff_false, patched_error]
    rintro (⟨id, -, -, he⟩ | ⟨-, q, range, -, -, he⟩) <;> cases he

theorem apply_eq_invalidFormat_iff {id : Ident} :
    (r.apply i p).1 = .error (.invalidFormat k id) ↔
      k = i ∧ ∃ c, r.get? i = some c ∧ p.format = some id ∧ id ∉ c.formats.map (·.id) := by
  rcases hget : r.get? i with _ | c
  · simp [apply_of_unknown hget]
  · simp only [apply_fst_of_known hget, patched_eq_invalidFormat_iff, Option.some.injEq,
      exists_eq_left']

theorem Holds.apply_eq_invalidQuality_iff (h : r.Holds seeds) {q min max : UInt32} :
    (r.apply i p).1 = .error (.invalidQuality k q min max) ↔
      k = i ∧ ∃ c, r.get? i = some c ∧ Knows c p ∧
        ∃ range, RefusesQuality r.options.policy c p q range ∧ min = range.min ∧
          max = range.max := by
  rcases hget : r.get? i with _ | c
  · simp [apply_of_unknown hget]
  · simp only [apply_fst_of_known hget, patched_eq_invalidQuality_iff, (h.mem_of_get? hget).2,
      Option.some.injEq, exists_eq_left']

theorem exists_apply_iff : (∃ d, (r.apply i p).1 = .ok d) ↔
    ∃ c, r.get? i = some c ∧ Knows c p ∧
      ∀ q range, ¬ RefusesQuality r.options.policy c p q range := by
  rcases hget : r.get? i with _ | c
  · simp [apply_of_unknown hget]
  · simp only [apply_fst_of_known hget, exists_patched_iff, Option.some.injEq, exists_eq_left']

theorem apply_snd_of_error {e : Failure} (h : (r.apply i p).1 = .error e) :
    (r.apply i p).2 = r := by
  rcases apply_cases r i p with ⟨e', he⟩ | ⟨c, d, -, -, he⟩
  · rw [he]
  · simp [he] at h

/-- After any patches the next one is refused because its camera is not stored, or because the
camera does not know its format, or because the policy refuses its quality for the format that
becomes active, each under just this condition and with just these data, and is otherwise
applied. A refusal changes nothing; what is applied is stored, changes no other camera, and keeps
what the patch leaves out. -/
theorem apply_exact {start : Registry} (h : ofCameras seeds options = .ok start)
    (calls : List (Ident × Patch)) (i : Ident) (p : Patch) :
    let r := start.run calls
    let result := (r.apply i p).1
    let after := (r.apply i p).2
    (result = .error (.notFound i) ↔ r.contains i = false) ∧
    (∀ id, result = .error (.invalidFormat i id) ↔
      ∃ c, r.get? i = some c ∧ p.format = some id ∧ id ∉ c.formats.map (·.id)) ∧
    (∀ q min max, result = .error (.invalidQuality i q min max) ↔
      ∃ c, r.get? i = some c ∧ Knows c p ∧
        ∃ range, RefusesQuality options.policy c p q range ∧ min = range.min ∧ max = range.max) ∧
    ((∃ d, result = .ok d) ↔ ∃ c, r.get? i = some c ∧ Knows c p ∧
      ∀ q range, ¬ RefusesQuality options.policy c p q range) ∧
    (∀ e, result = .error e → after = r) ∧
    ∀ d, result = .ok d → after.get? i = some d ∧ (∀ k, k ≠ i → after.get? k = r.get? k) ∧
      ∃ c, r.get? i = some c ∧
        (p.format = none → d.activeFormat = c.activeFormat ∧ d.description = c.description ∧
          d.resolution = c.resolution ∧ d.src = c.src) ∧
        (p.quality = none → d.quality = c.quality) := by
  intro r result after
  obtain ⟨hstart, hoptions⟩ := holds_ofCameras h
  have hr : r.Holds seeds := hstart.run calls
  have hro : r.options = options := (run_options start calls).trans hoptions
  refine ⟨apply_eq_notFound_iff.trans (and_iff_right rfl),
    fun id => apply_eq_invalidFormat_iff.trans (and_iff_right rfl), fun q min max => ?_, ?_,
    fun e he => apply_snd_of_error he, fun d hd => ?_⟩
  · rw [← hro]
    exact hr.apply_eq_invalidQuality_iff.trans (and_iff_right rfl)
  · rw [← hro]
    exact exists_apply_iff
  · obtain ⟨c, hc, hpatched, hstored⟩ := apply_ok (Prod.ext hd rfl : r.apply i p = (.ok d, after))
    have hsettled := (hr.get?_of_mem (hr.mem_of_get? hc).1).2
    refine ⟨hstored, fun k hk => get?_apply_of_ne hk, c, hc, fun hp => ?_,
      quality_patched_of_none hpatched⟩
    rw [patched_of_format_none hsettled hpatched hp]
    exact ⟨rfl, rfl, rfl, rfl⟩

/-- After a switch of its format a camera refuses an unknown format, even with a quality, and a
quality by the range of the format that the patch goes back to. -/
theorem apply_exact_demoFleet :
    ∃ start, ofCameras DemoFleet.cameras ⟨default, .strict⟩ = .ok start ∧
      let r := start.run [(.number 0, ⟨some (.number 2), some 97⟩)]
      (r.apply (.number 99) ⟨none, some 80⟩).1 = .error (.notFound (.number 99)) ∧
        (r.apply (.number 0) ⟨some (.number 42), some 60⟩).1 =
          .error (.invalidFormat (.number 0) (.number 42)) ∧
        (r.apply (.number 0) ⟨some (.number 1), some 97⟩).1 =
          .error (.invalidQuality (.number 0) 97 50 100) ∧
        (r.apply (.number 0) ⟨some (.number 1), some 97⟩).2 = r := by
  obtain ⟨start, h⟩ := exists_ofCameras_demoFleet ⟨default, .strict⟩
  refine ⟨start, h, ?_⟩
  intro r
  have hexact := apply_exact h [(.number 0, ⟨some (.number 2), some 97⟩)]
  have hr : r.Holds DemoFleet.cameras := (holds_ofCameras h).1.run _
  obtain ⟨c, hc, hdev⟩ := hr.exists_stored (d := DemoFleet.cameras[0]) (by decide +kernel)
  have hindex : c.index = .number 0 := hdev.index
  have hget : r.get? (.number 0) = some c := hindex ▸ (hr.get?_of_mem hc).1
  have hunknown : r.contains (.number 99) = false := by
    rw [Bool.eq_false_iff, Ne, contains_iff, hr.keys]
    decide +kernel
  have hrefuses : RefusesQuality .strict c ⟨some (.number 1), some 97⟩ 97
      ⟨50, 100, some 5, some 85⟩ := by
    have hactive : (withFormat c (some (.number 1))).active? =
        (withFormat DemoFleet.cameras[0] (some (.number 1))).active? :=
      Camera.active?_congr hdev.formats rfl
    refine ⟨rfl, rfl, ?_, by decide⟩
    rw [hactive]
    decide +kernel
  have hquality : (r.apply (.number 0) ⟨some (.number 1), some 97⟩).1 =
      .error (.invalidQuality (.number 0) 97 50 100) := by
    refine ((hexact _ _).2.2.1 97 50 100).2 ⟨c, hget, fun id hid => ?_, _, hrefuses, rfl, rfl⟩
    rw [← Option.some.inj hid, hdev.formats]
    decide +kernel
  refine ⟨(hexact _ _).1.2 hunknown, ((hexact _ _).2.1 _).2 ⟨c, hget, rfl, ?_⟩, hquality,
    (hexact _ _).2.2.2.2.1 _ hquality⟩
  rw [hdev.formats]
  decide +kernel

end Registry

end CameraFleet
