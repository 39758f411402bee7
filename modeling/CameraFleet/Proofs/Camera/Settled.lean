import Mathlib.Tactic.Common
import CameraFleet.Registry

/-!
# Cameras whose views agree

A camera is settled when it is sound and its description, its resolution and its source are what
its active format makes of them (`Camera.IsSettled`). Bringing a sound camera up to date settles
it (`isSettled_refreshed`), and a settled camera is already up to date (`IsSettled.refreshed_eq`).
What is fixed for good, the device behind a camera, is not touched by either.
-/

namespace CameraFleet.Camera

/-- The parts of a camera that no change of its configuration touches. -/
structure SameDevice (c d : Camera) : Prop where
  index : c.index = d.index
  name : c.name = d.name
  frameRate : c.frameRate = d.frameRate
  formats : c.formats = d.formats

theorem SameDevice.trans {a b c : Camera} (hab : SameDevice a b) (hbc : SameDevice b c) :
    SameDevice a c :=
  ⟨hab.index.trans hbc.index, hab.name.trans hbc.name, hab.frameRate.trans hbc.frameRate,
    hab.formats.trans hbc.formats⟩

theorem SameDevice.symm {c d : Camera} (h : SameDevice c d) : SameDevice d c :=
  ⟨h.index.symm, h.name.symm, h.frameRate.symm, h.formats.symm⟩

theorem SameDevice.format?_eq {c d : Camera} (h : SameDevice c d) (id : Ident) :
    c.format? id = d.format? id := by
  rw [format?, format?, h.formats]

/-! ## Sound cameras -/

/-- The ranges of all formats are sound. -/
def SoundRanges (fs : List ImageFormat) : Prop :=
  ∀ f ∈ fs, ∀ r, f.quality = some r → r.flaw? = none

theorem soundRanges_cons {f : ImageFormat} {fs : List ImageFormat} :
    SoundRanges (f :: fs) ↔ f.quality.bind QualityRange.flaw? = none ∧ SoundRanges fs := by
  rw [SoundRanges, List.forall_mem_cons, Option.bind_eq_none_iff]
  rfl

theorem formatsFlaw?_eq_none_iff (index : Ident) :
    ∀ (fs : List ImageFormat) (seen : List Ident), formatsFlaw? index seen fs = none ↔
      (fs.map (·.id)).Nodup ∧ (∀ f ∈ fs, f.id ∉ seen) ∧ SoundRanges fs
  | [], seen => by simp [formatsFlaw?, SoundRanges]
  | f :: fs, seen => by
    rw [formatsFlaw?, soundRanges_cons]
    split_ifs with hf
    · simp [hf]
    · rcases hq : f.quality.bind QualityRange.flaw? with _ | flaw
      · simp only [formatsFlaw?_eq_none_iff index fs (f.id :: seen), List.map_cons,
          List.nodup_cons, List.mem_map, List.mem_cons, forall_eq_or_imp, not_or]
        constructor
        · rintro ⟨hnd, hseen, hall⟩
          exact ⟨⟨fun ⟨g, hg, h⟩ => (hseen g hg).1 h, hnd⟩, ⟨hf, fun g hg => (hseen g hg).2⟩,
            trivial, hall⟩
        · rintro ⟨⟨hne, hnd⟩, ⟨-, hseen⟩, -, hall⟩
          exact ⟨hnd, fun g hg => ⟨fun h => hne ⟨g, hg, h⟩, hseen g hg⟩, hall⟩
      · simp only [reduceCtorEq, false_and, and_false]

/-- A camera is sound when its formats are told apart by their identifiers, all ranges are
sound, the active format is there, and a description is its. -/
theorem flaw?_eq_none_iff (c : Camera) : c.flaw? = none ↔
    (c.formats.map (·.id)).Nodup ∧ SoundRanges c.formats ∧
      ∃ f, c.active? = some f ∧ ∀ d, c.description = some d → d = f.description := by
  have hf := formatsFlaw?_eq_none_iff c.index c.formats []
  unfold flaw?
  rcases hflaw : formatsFlaw? c.index [] c.formats with _ | flaw
  · obtain ⟨hnd, -, hq⟩ := hf.1 hflaw
    rcases ha : c.active? with _ | f
    · simp
    · rcases hd : c.description with _ | d
      · simp [hnd, hq]
      · by_cases h : d = f.description <;> simp [h, hnd, hq]
  · simp only [reduceCtorEq, false_iff]
    rintro ⟨hnd, hq, -⟩
    rw [hf.2 ⟨hnd, by simp, hq⟩] at hflaw
    exact absurd hflaw (by simp)

theorem format?_some {c : Camera} {id : Ident} {f : ImageFormat} (h : c.format? id = some f) :
    f ∈ c.formats ∧ f.id = id :=
  ⟨List.mem_of_find?_eq_some h, by simpa using List.find?_some h⟩

theorem format?_isSome_iff {c : Camera} {id : Ident} :
    (c.format? id).isSome ↔ id ∈ c.formats.map (·.id) := by
  simp [format?]

theorem format?_eq_none_iff {c : Camera} {id : Ident} :
    c.format? id = none ↔ id ∉ c.formats.map (·.id) := by
  rw [← format?_isSome_iff, Option.not_isSome_iff_eq_none]

/-- Of formats that are told apart by their identifiers one alone has the identifier. -/
theorem filter_eq_of_format? {c : Camera} (hnd : (c.formats.map (·.id)).Nodup) {id : Ident}
    {f : ImageFormat} (h : c.format? id = some f) : c.formats.filter (·.id = id) = [f] := by
  obtain ⟨hf, rfl⟩ := format?_some h
  obtain ⟨l, r, hl⟩ := List.append_of_mem hf
  rw [hl] at hnd ⊢
  rw [List.map_append, List.map_cons, List.nodup_append, List.nodup_cons] at hnd
  obtain ⟨-, ⟨hr, -⟩, hdis⟩ := hnd
  have hl0 : l.filter (·.id = f.id) = [] := by
    refine List.filter_eq_nil_iff.2 fun g hg => ?_
    simpa using hdis g.id (List.mem_map_of_mem hg) f.id List.mem_cons_self
  have hr0 : r.filter (·.id = f.id) = [] := by
    refine List.filter_eq_nil_iff.2 fun g hg => ?_
    simp only [decide_eq_true_eq]
    exact fun h => hr (h ▸ List.mem_map_of_mem hg)
  rw [List.filter_append, List.filter_cons, hl0, hr0]
  simp

/-! ## Settled cameras -/

/-- A sound camera whose views are what its active format makes of them; a format that implies
no resolution says nothing about it. -/
structure IsSettled (preview : Preview) (c : Camera) : Prop where
  sound : c.flaw? = none
  active : ∃ f, c.formats.filter (·.id = c.activeFormat) = [f] ∧
    c.description = some f.description ∧ ∀ r, f.impliedResolution? = some r → c.resolution = r
  src : c.src = preview.render c.index c.resolution

variable {preview : Preview} {c d : Camera}

theorem refreshed_of_active {f : ImageFormat} (h : c.active? = some f) :
    c.refreshed preview = { c with
      description := some f.description
      resolution := f.impliedResolution?.getD c.resolution
      src := preview.render c.index (f.impliedResolution?.getD c.resolution) } := by
  simp only [refreshed, h]

theorem refreshed_of_inactive (h : c.active? = none) :
    c.refreshed preview = { c with src := preview.render c.index c.resolution } := by
  simp only [refreshed, h]

theorem sameDevice_refreshed (preview : Preview) (c : Camera) :
    SameDevice (c.refreshed preview) c := by
  rcases h : c.active? with _ | f
  · rw [refreshed_of_inactive h]
    exact ⟨rfl, rfl, rfl, rfl⟩
  · rw [refreshed_of_active h]
    exact ⟨rfl, rfl, rfl, rfl⟩

theorem activeFormat_refreshed : (c.refreshed preview).activeFormat = c.activeFormat := by
  rcases h : c.active? with _ | f
  · rw [refreshed_of_inactive h]
  · rw [refreshed_of_active h]

theorem quality_refreshed : (c.refreshed preview).quality = c.quality := by
  rcases h : c.active? with _ | f
  · rw [refreshed_of_inactive h]
  · rw [refreshed_of_active h]

theorem active?_congr (hformats : c.formats = d.formats)
    (hactive : c.activeFormat = d.activeFormat) : c.active? = d.active? := by
  simp only [active?, format?, hformats, hactive]

theorem active?_refreshed : (c.refreshed preview).active? = c.active? :=
  active?_congr (sameDevice_refreshed preview c).formats activeFormat_refreshed

theorem IsSettled.active?_eq (h : c.IsSettled preview) {f : ImageFormat}
    (hf : c.formats.filter (·.id = c.activeFormat) = [f]) : c.active? = some f := by
  have hm : f ∈ c.formats.filter (·.id = c.activeFormat) := hf ▸ List.mem_cons_self
  obtain ⟨-, -, g, hg, -⟩ := (flaw?_eq_none_iff c).1 h.sound
  obtain ⟨hgm, hgid⟩ := format?_some hg
  have hgf : g ∈ c.formats.filter (·.id = c.activeFormat) :=
    List.mem_filter.2 ⟨hgm, by simpa using hgid⟩
  rw [hf, List.mem_singleton] at hgf
  rw [hg, hgf]

theorem isSettled_refreshed (hnd : (c.formats.map (·.id)).Nodup)
    (hq : SoundRanges c.formats) {f : ImageFormat} (hf : c.active? = some f) :
    (c.refreshed preview).IsSettled preview := by
  rw [refreshed_of_active hf]
  refine ⟨(flaw?_eq_none_iff _).2 ⟨hnd, hq, f, hf, fun d hd => ?_⟩,
    ⟨f, filter_eq_of_format? hnd hf, rfl, fun r hr => ?_⟩, rfl⟩
  · exact (Option.some.inj hd).symm
  · simp only [hr, Option.getD_some]

theorem IsSettled.refreshed_eq (h : c.IsSettled preview) : c.refreshed preview = c := by
  obtain ⟨f, hf, hd, hr⟩ := h.active
  have hres : f.impliedResolution?.getD c.resolution = c.resolution := by
    rcases hi : f.impliedResolution? with _ | r
    · rfl
    · exact (hr r hi).symm
  rw [refreshed_of_active (h.active?_eq hf), hres, ← hd, ← h.src]

end CameraFleet.Camera
