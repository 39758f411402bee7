import CameraFleet.Proofs.Registry.Isolation
import CameraFleet.Proofs.Registry.Outcome

/-!
# Patches that are applied again, and patches that set everything

A patch that was applied finds the camera as it leaves it, so it changes nothing when it is applied
again (`Holds.apply_apply`). A patch that sets the format and the quality, to a format that implies
a resolution, leaves nothing of what was configured before (`patched_of_full`): it is answered alike
in all registries of the same seeds (`Holds.apply_of_full`), and the last one that is accepted
settles its camera (`apply_forgets`). A format that implies no resolution leaves the one that
there was (`resolution_patched_of_bare`).
-/

namespace CameraFleet

namespace Camera

variable {c d : Camera}

/-- Cameras of one device with the same configuration look the same once they are brought up to
date, if their format implies a resolution. -/
theorem SameDevice.refreshed_eq {preview : Preview} (h : c.SameDevice d)
    (hactive : c.activeFormat = d.activeFormat) (hquality : c.quality = d.quality)
    {f : ImageFormat} (hf : c.active? = some f) (himplied : f.impliedResolution?.isSome) :
    c.refreshed preview = d.refreshed preview := by
  have halike : c.SeedsAlike d := ⟨h, hactive, hquality, fun g hg hnone => by
    rw [hf, Option.some.injEq] at hg
    simp [hg, hnone] at himplied⟩
  exact halike.refreshed_eq hf

end Camera

namespace Registry

variable {r t : Registry} {seeds : List Camera} {policy : Policy} {options : Options} {i : Ident}
  {c d : Camera} {p : Patch}

/-! ## A patch again -/

/-- A patch leaves the camera that it is applied to as it left it. -/
theorem patched_patched (hc : c.IsSettled options.preview) (h : patched options i c p = .ok d) :
    patched options i d p = .ok d := by
  have hdev := sameDevice_patched h
  have hknown : ∀ id, p.format = some id → (d.format? id).isSome := fun id hid =>
    hdev.format?_eq id ▸ (patched_ok h).1 id hid
  have hformat : withFormat d p.format = d := by
    have hactive : p.format.getD d.activeFormat = d.activeFormat := by
      rw [activeFormat_patched h]
      cases p.format <;> rfl
    rw [withFormat, hactive]
  have hquality : setQuality options.policy d p.quality = .ok d := by
    rcases hp : p.quality with _ | q
    · rfl
    · obtain ⟨v, hv, hd⟩ := quality_patched_of_some h hp
      simp only [setQuality, hv, ← hd]
  unfold patched
  rw [switchFormat_of_known hknown, hformat]
  simp only [hquality, (isSettled_patched hc h).refreshed_eq]

theorem Holds.apply_apply (h : r.Holds seeds) (ha : r.apply i p = (.ok c, t)) :
    t.apply i p = (.ok c, t) := by
  obtain ⟨b, hb, hc, ht⟩ := apply_ok ha
  have ht' : t = (r.apply i p).2 := by rw [ha]
  have hsettled := (h.get?_of_mem (h.mem_of_get? hb).1).2
  have hagain : patched t.options i c p = .ok c := by
    rw [ht', apply_options]
    exact patched_patched hsettled hc
  rw [apply_of_ok ht hagain, replace_self (ht' ▸ h.apply i p).ascending ht]

/-! ## A patch that sets everything -/

/-- A patch that sets the quality, and a format that implies a resolution. -/
structure IsFull (seeds : List Camera) (i : Ident) (p : Patch) : Prop where
  format : p.format.isSome
  quality : p.quality.isSome
  implied : ∀ s ∈ seeds, s.index = i → ∀ f ∈ s.formats, p.format = some f.id →
    f.impliedResolution?.isSome

theorem resolveQuality_congr (hindex : c.index = d.index) (hactive : c.active? = d.active?)
    (q : UInt32) : resolveQuality policy c q = resolveQuality policy d q := by
  rw [resolveQuality, resolveQuality, hactive, hindex]

/-- What is made of a camera depends on its device alone. -/
theorem patched_of_full (h : c.SameDevice d) {id : Ident} {q : UInt32}
    (himplied : ∀ f, c.format? id = some f → f.impliedResolution?.isSome) :
    patched options i c ⟨some id, some q⟩ = patched options i d ⟨some id, some q⟩ := by
  rcases hf : c.format? id with _ | f
  · simp only [patched, switchFormat, hf, (h.format?_eq id).symm.trans hf]
  · have hknown : ∀ {b : Camera}, b.SameDevice c →
        switchFormat i b (some id) = .ok (withFormat b (some id)) := fun hb =>
      switchFormat_of_known fun id' hid => by
        rw [← Option.some.inj hid, hb.format?_eq, hf, Option.isSome_some]
    have hactive : (withFormat c (some id)).active? = (withFormat d (some id)).active? :=
      Camera.active?_congr h.formats rfl
    have hresolve : resolveQuality options.policy (withFormat c (some id)) q =
        resolveQuality options.policy (withFormat d (some id)) q :=
      resolveQuality_congr (c := withFormat c (some id)) (d := withFormat d (some id)) h.index
        hactive q
    simp only [patched, hknown ⟨rfl, rfl, rfl, rfl⟩, hknown h.symm, setQuality, hresolve]
    rcases resolveQuality options.policy (withFormat d (some id)) q with e | v
    · rfl
    · simp only [Except.ok.injEq]
      exact Camera.SameDevice.refreshed_eq ⟨h.index, h.name, h.frameRate, h.formats⟩ rfl rfl hf
        (himplied f hf)

/-- Where the new format implies no resolution, the one of the format before it stays. -/
theorem resolution_patched_of_bare (h : patched options i c p = .ok d) {f : ImageFormat}
    (hf : (withFormat c p.format).active? = some f) (hbare : f.impliedResolution? = none) :
    d.resolution = c.resolution := by
  obtain ⟨-, e, he, rfl⟩ := patched_ok h
  obtain ⟨stored, rfl, -⟩ := setQuality_ok he
  have hactive : { withFormat c p.format with quality := stored }.active? = some f := hf
  rw [Camera.refreshed_of_active hactive, hbare]
  rfl

/-- Under one identifier, registries of the same seeds store the device of one seed, or nothing. -/
theorem Holds.stored_alike (hr : r.Holds seeds) (ht : t.Holds seeds) (i : Ident) :
    (r.get? i = none ∧ t.get? i = none) ∨ ∃ c d, r.get? i = some c ∧ t.get? i = some d ∧
      ∃ s ∈ seeds, s.index = i ∧ c.SameDevice s ∧ d.SameDevice s := by
  have hkeys : r.contains i ↔ t.contains i := by
    rw [contains_iff, contains_iff, hr.keys, ht.keys]
  rcases hc : r.get? i with _ | c
  · exact Or.inl ⟨rfl, by simpa [contains, hc] using hkeys⟩
  · obtain ⟨d, hd⟩ : ∃ d, t.get? i = some d :=
      Option.isSome_iff_exists.1 (hkeys.1 (by simp [contains, hc]))
    obtain ⟨hci, -, s, hs, hcs⟩ := hr.stored i c (hr.get?.1 hc)
    obtain ⟨hdi, -, s', hs', hds⟩ := ht.stored i d (ht.get?.1 hd)
    obtain rfl : s = s' := List.inj_on_of_nodup_map hr.distinct hs hs' <| by
      rw [← hcs.index, ← hds.index, hci, hdi]
    exact Or.inr ⟨c, d, rfl, hd, s, hs, hcs.index.symm.trans hci, hcs, hds⟩

/-- Two registries of the same seeds answer a patch that sets everything alike. -/
theorem Holds.apply_of_full (hr : r.Holds seeds) (ht : t.Holds seeds)
    (hoptions : r.options = t.options) (hp : IsFull seeds i p) :
    (r.apply i p).1 = (t.apply i p).1 := by
  rcases hr.stored_alike ht i with ⟨hc, hd⟩ | ⟨c, d, hc, hd, s, hs, hindex, hcs, hds⟩
  · rw [apply_of_unknown hc, apply_of_unknown hd]
  · obtain ⟨id, hid⟩ := Option.isSome_iff_exists.1 hp.format
    obtain ⟨q, hq⟩ := Option.isSome_iff_exists.1 hp.quality
    have himplied : ∀ f, c.format? id = some f → f.impliedResolution?.isSome := fun f hf => by
      obtain ⟨hmem, rfl⟩ := Camera.format?_some hf
      exact hp.implied s hs hindex f (hcs.formats ▸ hmem) hid
    have hfull : p = ⟨some id, some q⟩ := by rw [← hid, ← hq]
    rw [apply_fst_of_known hc, apply_fst_of_known hd, hoptions, hfull,
      patched_of_full (hcs.trans hds.symm) himplied]

/-- What was answered was answered to one of the calls, behind those before it. -/
theorem exists_call_of_mem_answers {a : Except Failure Camera} :
    ∀ {calls : List (Ident × Patch)} {r : Registry}, (i, a) ∈ r.answers calls →
      ∃ before p after, calls = before ++ (i, p) :: after ∧ ((r.run before).apply i p).1 = a
  | [], r, h => by simp [answers] at h
  | (index, p) :: calls, r, h => by
    rcases List.mem_cons.1 h with h | h
    · obtain ⟨rfl, rfl⟩ := Prod.mk.inj h
      exact ⟨[], p, calls, rfl, rfl⟩
    · obtain ⟨before, p', after, rfl, ha⟩ := exists_call_of_mem_answers h
      exact ⟨(index, p) :: before, p', after, rfl, ha⟩

theorem mem_answers_of_accepted {es : List (Ident × Except Failure Camera)}
    (h : c ∈ accepted (addressedTo i es)) : (i, .ok c) ∈ es := by
  obtain ⟨⟨k, a⟩, haddressed, ha⟩ := List.mem_filterMap.1 h
  obtain ⟨hmem, hk⟩ := List.mem_filter.1 haddressed
  obtain rfl : k = i := by simpa using hk
  rcases a with e | d
  · simp [Except.toOption] at ha
  · obtain rfl : d = c := by simpa [Except.toOption] using ha
    exact hmem

/-- A patch that was applied changes nothing when it is applied again. A patch that sets everything
is answered alike in all states that the seeds lead to; behind the last one that was accepted its
camera is what it makes of the seed, and where all patches to a camera set everything, the camera
is never anything but the seed or what one of them makes of it. -/
theorem apply_forgets {start : Registry} (h : ofCameras seeds options = .ok start) (i : Ident) :
    (∀ calls p c t, (start.run calls).apply i p = (.ok c, t) → t.apply i p = (.ok c, t)) ∧
    (∀ p, IsFull seeds i p → ∀ calls other,
      ((start.run calls).apply i p).1 = ((start.run other).apply i p).1) ∧
    (∀ before p after c, IsFull seeds i p → ((start.run before).apply i p).1 = .ok c →
      accepted (addressedTo i (((start.run before).apply i p).2.answers after)) = [] →
      (start.apply i p).1 = .ok c ∧ (start.run (before ++ (i, p) :: after)).get? i = some c) ∧
    ∀ calls, (∀ p, (i, p) ∈ calls → IsFull seeds i p) → ∀ c, (start.run calls).get? i = some c →
      start.get? i = some c ∨ ∃ p, (i, p) ∈ calls ∧ (start.apply i p).1 = .ok c := by
  obtain ⟨hstart, -⟩ := holds_ofCameras h
  have halike : ∀ p, IsFull seeds i p → ∀ calls other,
      ((start.run calls).apply i p).1 = ((start.run other).apply i p).1 := fun p hp calls other =>
    (hstart.run calls).apply_of_full (hstart.run other) (by simp) hp
  refine ⟨fun calls p c t => (hstart.run calls).apply_apply, halike, ?_, ?_⟩
  · intro before p after c hp hc hlast
    refine ⟨(halike p hp [] before).trans hc, ?_⟩
    obtain ⟨b, -, -, hstored⟩ :=
      apply_ok (Prod.ext hc rfl : (start.run before).apply i p = (.ok c, _))
    rw [run_append, run_cons, get?_run_eq_last, hlast]
    exact hstored
  · intro calls hfull c hc
    rw [get?_run_eq_last] at hc
    rcases hlast : (accepted (addressedTo i (start.answers calls))).getLast? with _ | d
    · exact Or.inl (by simpa [hlast] using hc)
    · obtain rfl : d = c := by simpa [hlast] using hc
      have hanswer := mem_answers_of_accepted (List.mem_of_getLast? hlast)
      obtain ⟨before, p, after, rfl, ha⟩ := exists_call_of_mem_answers hanswer
      have hp : (i, p) ∈ before ++ (i, p) :: after := by simp
      exact Or.inr ⟨p, hp, (halike p (hfull p hp) [] before).trans ha⟩

/-- Two patches to a camera that set everything, a patch to another one in between and one that is
refused behind them: the second decides, as if it had come alone, and once is as good as twice. -/
theorem apply_forgets_demoFleet :
    let before : List (Ident × Patch) :=
      [(.number 0, ⟨some (.number 1), some 60⟩), (.number 1, ⟨none, some 95⟩)]
    let last : Patch := ⟨some (.number 2), some 90⟩
    let after : List (Ident × Patch) := [(.number 0, ⟨some (.number 1), some 61⟩)]
    ∃ start, ofCameras DemoFleet.cameras ⟨default, .strict⟩ = .ok start ∧
      ∃ c, (start.apply (.number 0) last).1 = .ok c ∧
        (start.run (before ++ (.number 0, last) :: after)).get? (.number 0) = some c ∧
        let t := ((start.run before).apply (.number 0) last).2
        t.apply (.number 0) last = (.ok c, t) := by
  intro before last after
  have hruns : (ofCameras DemoFleet.cameras ⟨default, .strict⟩).toOption.map (fun start =>
      (((start.run before).apply (.number 0) last).1.isOk, accepted (addressedTo (.number 0)
        (((start.run before).apply (.number 0) last).2.answers after)))) = some (true, []) := by
    decide +kernel
  obtain ⟨start, h⟩ := exists_ofCameras_demoFleet ⟨default, .strict⟩
  have hfull : IsFull DemoFleet.cameras (.number 0) last := ⟨rfl, rfl, by decide +kernel⟩
  simp only [h, Except.toOption, Option.map_some, Option.some.injEq, Prod.mk.injEq] at hruns
  obtain ⟨hok, hrest⟩ := hruns
  obtain ⟨hagain, -, hlast, -⟩ := apply_forgets h (.number 0)
  rcases hc : ((start.run before).apply (.number 0) last).1 with e | c
  · simp [hc, Except.isOk, Except.toBool] at hok
  · obtain ⟨halone, hdecides⟩ := hlast before last after c hfull hc hrest
    exact ⟨start, h, c, halone, hdecides, hagain before last c _ (Prod.ext hc rfl)⟩

end Registry

end CameraFleet
