import CameraFleet.Proofs.Registry.Quality

/-!
# The cameras that a registry is seeded with

Cameras can be seeded when each is sound in what it says of its device and its active format, and
no two have one identifier (`exists_ofCameras_iff`): what is shown of the active format is filled
in before a camera is checked, so no seed is refused for it (`flaw?_refreshed_ne_stale`). The
registry is settled by the cameras as they are filled in, in whatever order they come
(`ofCameras_perm`, `ofCameras_congr`), and the cameras it lists, seeded again, give it back
(`Holds.ofCameras_toList`).
-/

namespace CameraFleet

namespace Camera

variable {c d : Camera} {preview : Preview}

/-! ## One camera -/

/-- The formats are told apart by their identifiers, their ranges are sound, and the active one is
among them. -/
structure IsSeedable (c : Camera) : Prop where
  distinct : (c.formats.map (·.id)).Nodup
  ranges : ∀ f ∈ c.formats, ∀ range, f.quality = some range → range.IsSound
  active : c.activeFormat ∈ c.formats.map (·.id)

theorem flaw?_refreshed_eq_none_iff (preview : Preview) :
    (c.refreshed preview).flaw? = none ↔ c.IsSeedable := by
  rw [flaw?_eq_none_iff, (sameDevice_refreshed preview c).formats, active?_refreshed]
  constructor
  · rintro ⟨hnd, hranges, f, hf, -⟩
    exact ⟨hnd, fun f hf r hr => QualityRange.flaw?_eq_none_iff.1 (hranges f hf r hr),
      format?_isSome_iff.1 (Option.isSome_of_eq_some hf)⟩
  · rintro ⟨hnd, hranges, hactive⟩
    obtain ⟨f, hf⟩ := Option.isSome_iff_exists.1 (format?_isSome_iff.2 hactive)
    refine ⟨hnd, fun f hf r hr => QualityRange.flaw?_eq_none_iff.2 (hranges f hf r hr), f, hf, ?_⟩
    intro description hd
    rw [refreshed_of_active hf] at hd
    exact (Option.some.inj hd).symm

instance (c : Camera) : Decidable c.IsSeedable :=
  decidable_of_iff _ (flaw?_refreshed_eq_none_iff default)

theorem Flaw.toDefect_eq_staleDescription_iff {flaw : Flaw} {i : Ident} :
    flaw.toDefect = .staleDescription i ↔ flaw = .staleDescription i := by
  cases flaw <;> simp [toDefect]

theorem formatsFlaw?_ne_stale (index i : Ident) : ∀ (fs : List ImageFormat) (seen : List Ident),
    formatsFlaw? index seen fs ≠ some (.staleDescription i)
  | [], seen => by simp [formatsFlaw?]
  | f :: fs, seen => by
    rw [formatsFlaw?]
    split_ifs
    · simp
    · rcases f.quality.bind QualityRange.flaw? with _ | flaw
      · exact formatsFlaw?_ne_stale index i fs (f.id :: seen)
      · simp

/-- A camera that is filled in has the description of its active format, and one without an active
format has a flaw before its description is looked at. -/
theorem flaw?_refreshed_ne_stale (c : Camera) (preview : Preview) (i : Ident) :
    (c.refreshed preview).flaw? ≠ some (.staleDescription i) := by
  unfold flaw?
  split
  · rename_i hflaw
    exact hflaw ▸ formatsFlaw?_ne_stale _ i _ []
  · rcases hf : c.active? with _ | f
    · rw [active?_refreshed, hf]
      simp
    · rw [active?_refreshed, hf, refreshed_of_active hf]
      simp

theorem IsSeedable.exists_active (h : c.IsSeedable) : ∃ f, c.active? = some f :=
  Option.isSome_iff_exists.1 (format?_isSome_iff.2 h.active)

/-- Cameras that differ at most in what a registry fills in: the source, the description, and the
resolution if the active format implies one. -/
structure SeedsAlike (c d : Camera) : Prop where
  device : c.SameDevice d
  activeFormat : c.activeFormat = d.activeFormat
  quality : c.quality = d.quality
  resolution : ∀ f, c.active? = some f → f.impliedResolution? = none → c.resolution = d.resolution

theorem SeedsAlike.active?_eq (h : c.SeedsAlike d) : c.active? = d.active? :=
  active?_congr h.device.formats h.activeFormat

theorem SeedsAlike.refreshed_eq (h : c.SeedsAlike d) {f : ImageFormat} (hf : c.active? = some f) :
    c.refreshed preview = d.refreshed preview := by
  have hresolution : f.impliedResolution?.getD c.resolution =
      f.impliedResolution?.getD d.resolution := by
    rcases hi : f.impliedResolution? with _ | r
    · exact h.resolution f hf hi
    · rfl
  rw [refreshed_of_active hf, refreshed_of_active (h.active?_eq ▸ hf), hresolution]
  simp only [h.device.index, h.device.name, h.device.frameRate, h.device.formats, h.activeFormat,
    h.quality]

/-- Without an active format only the device and the identifier of that format tell the flaw. -/
theorem SeedsAlike.flaw?_refreshed_eq (h : c.SeedsAlike d) :
    (c.refreshed preview).flaw? = (d.refreshed preview).flaw? := by
  rcases hf : c.active? with _ | f
  · have hc : (c.refreshed preview).active? = none := active?_refreshed.trans hf
    have hd : (d.refreshed preview).active? = none := active?_refreshed.trans (h.active?_eq ▸ hf)
    unfold flaw?
    simp only [hc, hd, (sameDevice_refreshed preview _).index,
      (sameDevice_refreshed preview _).formats, activeFormat_refreshed, h.device.index,
      h.device.formats, h.activeFormat]
  · rw [h.refreshed_eq hf]

end Camera

namespace Registry

variable {r t : Registry} {seeds other cs ds : List Camera} {options : Options} {c : Camera}

/-! ## One camera after the other -/

theorem seed_of_flaw {flaw : Camera.Flaw}
    (h : (c.refreshed r.options.preview).flaw? = some flaw) (cs : List Camera) :
    r.seed (c :: cs) = .error (.invalidSeed flaw.toDefect) := by
  rw [seed_cons, h]

theorem seed_of_duplicate (hc : c.IsSeedable) (h : c.index ∈ r.entries.map (·.1))
    (cs : List Camera) : r.seed (c :: cs) = .error (.duplicateIndex c.index) := by
  simp only [seed_cons, (Camera.flaw?_refreshed_eq_none_iff _).2 hc, contains_iff.2 h, if_true]

theorem seed_of_new (hc : c.IsSeedable) (h : c.index ∉ r.entries.map (·.1)) (cs : List Camera) :
    r.seed (c :: cs) = (r.add c).seed cs := by
  rw [← contains_iff] at h
  simp only [seed_cons, (Camera.flaw?_refreshed_eq_none_iff _).2 hc, h, Bool.false_eq_true,
    if_false]

/-- The next camera has a flaw, or a known identifier, or is added. -/
theorem seed_cases (r : Registry) (c : Camera) (cs : List Camera) :
    (¬ c.IsSeedable ∧ ∃ flaw, (c.refreshed r.options.preview).flaw? = some flaw ∧
        r.seed (c :: cs) = .error (.invalidSeed flaw.toDefect)) ∨
      (c.IsSeedable ∧ c.index ∈ r.entries.map (·.1) ∧
        r.seed (c :: cs) = .error (.duplicateIndex c.index)) ∨
      (c.IsSeedable ∧ c.index ∉ r.entries.map (·.1) ∧ r.seed (c :: cs) = (r.add c).seed cs) := by
  by_cases hc : c.IsSeedable
  · by_cases hdup : c.index ∈ r.entries.map (·.1)
    · exact Or.inr (Or.inl ⟨hc, hdup, seed_of_duplicate hc hdup cs⟩)
    · exact Or.inr (Or.inr ⟨hc, hdup, seed_of_new hc hdup cs⟩)
  · have hflaw := hc
    rw [← Camera.flaw?_refreshed_eq_none_iff r.options.preview] at hflaw
    obtain ⟨flaw, hflaw⟩ := Option.ne_none_iff_exists'.1 hflaw
    exact Or.inl ⟨hc, flaw, hflaw, seed_of_flaw hflaw cs⟩

theorem exists_seed_iff : ∀ {cs : List Camera} {r : Registry}, (∃ t, r.seed cs = .ok t) ↔
    (∀ c ∈ cs, c.IsSeedable) ∧ (cs.map (·.index)).Nodup ∧
      ∀ c ∈ cs, c.index ∉ r.entries.map (·.1)
  | [], r => by simp [seed]
  | c :: cs, r => by
    simp only [List.forall_mem_cons, List.map_cons, List.nodup_cons]
    rcases seed_cases r c cs with ⟨hc, flaw, -, hseed⟩ | ⟨hc, hdup, hseed⟩ | ⟨hc, hnew, hseed⟩
    · simp [hseed, hc]
    · simp [hseed, hdup]
    · rw [hseed, exists_seed_iff]
      simp only [mem_map_fst_add, not_or, hc, hnew, not_false_eq_true, true_and]
      constructor
      · rintro ⟨hcs, hnd, hapart⟩
        refine ⟨hcs, ⟨fun h => ?_, hnd⟩, fun d hd => (hapart d hd).2⟩
        obtain ⟨d, hd, hindex⟩ := List.mem_map.1 h
        exact (hapart d hd).1 hindex
      · rintro ⟨hcs, ⟨hindex, hnd⟩, hapart⟩
        exact ⟨hcs, hnd, fun d hd => ⟨fun h => hindex (h ▸ List.mem_map_of_mem hd), hapart d hd⟩⟩

theorem mem_entries_seed {e : Ident × Camera} : ∀ {cs : List Camera} {r : Registry},
    r.seed cs = .ok t →
      (e ∈ t.entries ↔ e ∈ r.entries ∨ ∃ c ∈ cs, e = (c.index, c.refreshed r.options.preview))
  | [], r, h => by
    obtain rfl := Except.ok.inj h
    simp
  | c :: cs, r, h => by
    rcases seed_cases r c cs with ⟨-, flaw, -, hseed⟩ | ⟨-, -, hseed⟩ | ⟨-, -, hseed⟩
    · simp [hseed] at h
    · simp [hseed] at h
    · rw [hseed] at h
      rw [mem_entries_seed h, mem_entries_add, List.exists_mem_cons_iff, or_right_comm, or_comm]
      rfl

/-- Seeding fails for a flaw of a camera, or for an identifier that two cameras have. -/
theorem seed_error {e : Failure} : ∀ {cs : List Camera} {r : Registry}, r.seed cs = .error e →
    (∃ c ∈ cs, ∃ flaw, (c.refreshed r.options.preview).flaw? = some flaw ∧
      e = .invalidSeed flaw.toDefect) ∨ ∃ c ∈ cs, e = .duplicateIndex c.index
  | [], r, h => by simp [seed] at h
  | c :: cs, r, h => by
    rcases seed_cases r c cs with ⟨-, flaw, hflaw, hseed⟩ | ⟨-, -, hseed⟩ | ⟨-, -, hseed⟩
    · rw [hseed] at h
      exact Or.inl ⟨c, List.mem_cons_self, flaw, hflaw, (Except.error.inj h).symm⟩
    · rw [hseed] at h
      exact Or.inr ⟨c, List.mem_cons_self, (Except.error.inj h).symm⟩
    · rw [hseed] at h
      rcases seed_error h with ⟨d, hd, hflaw⟩ | ⟨d, hd, he⟩
      · exact Or.inl ⟨d, List.mem_cons_of_mem _ hd, hflaw⟩
      · exact Or.inr ⟨d, List.mem_cons_of_mem _ hd, he⟩

theorem seed_congr {cs ds : List Camera} (h : List.Forall₂ Camera.SeedsAlike cs ds) :
    ∀ r : Registry, r.seed cs = r.seed ds := by
  induction h with
  | nil => exact fun _ => rfl
  | @cons c d cs ds hcd _ ih =>
    intro r
    rw [seed_cons, seed_cons, hcd.flaw?_refreshed_eq, hcd.device.index]
    split
    · rfl
    · rename_i hsound
      have hadd : r.add c = r.add d := by
        obtain ⟨f, hf⟩ := ((Camera.flaw?_refreshed_eq_none_iff _).1 hsound).exists_active
        rw [add, add, hcd.refreshed_eq (hcd.active?_eq.trans hf), hcd.device.index]
      rw [hadd, ih]

/-! ## All cameras -/

theorem eq_of_entries (hentries : r.entries = t.entries) (hoptions : r.options = t.options) :
    r = t := by
  rcases r with ⟨es, o⟩
  subst hentries hoptions
  rfl

theorem exists_ofCameras_iff : (∃ r, ofCameras seeds options = .ok r) ↔
    (∀ c ∈ seeds, c.IsSeedable) ∧ (seeds.map (·.index)).Nodup := by
  rw [ofCameras, exists_seed_iff]
  simp

theorem mem_entries_ofCameras (h : ofCameras seeds options = .ok r) {e : Ident × Camera} :
    e ∈ r.entries ↔ ∃ c ∈ seeds, e = (c.index, c.refreshed options.preview) := by
  rw [ofCameras] at h
  rw [mem_entries_seed h]
  simp

theorem ofCameras_error {e : Failure} (h : ofCameras seeds options = .error e) :
    (∃ c ∈ seeds, ∃ flaw, (c.refreshed options.preview).flaw? = some flaw ∧
      e = .invalidSeed flaw.toDefect) ∨ ∃ c ∈ seeds, e = .duplicateIndex c.index :=
  seed_error (r := ⟨[], options⟩) h

/-- What seeding fails for may depend on the order, but not the registry. -/
theorem ofCameras_perm (h : seeds.Perm other) :
    ofCameras seeds options = .ok r ↔ ofCameras other options = .ok r := by
  suffices hone : ∀ {seeds other}, seeds.Perm other → ofCameras seeds options = .ok r →
      ofCameras other options = .ok r from ⟨hone h, hone h.symm⟩
  intro seeds other h hr
  have hexists : ∃ t, ofCameras other options = .ok t := by
    obtain ⟨hall, hnd⟩ := exists_ofCameras_iff.1 ⟨r, hr⟩
    exact exists_ofCameras_iff.2 ⟨fun c hc => hall c (h.mem_iff.2 hc), (h.map _).nodup_iff.1 hnd⟩
  obtain ⟨t, ht⟩ := hexists
  obtain ⟨hholds, hoptions⟩ := holds_ofCameras hr
  obtain ⟨hholds', hoptions'⟩ := holds_ofCameras ht
  have hentries : r.entries = t.entries := hholds.ascending.ext hholds'.ascending fun e => by
    simp only [mem_entries_ofCameras hr, mem_entries_ofCameras ht, h.mem_iff]
  rw [ht, eq_of_entries hentries (hoptions.trans hoptions'.symm)]

theorem ofCameras_congr (h : List.Forall₂ Camera.SeedsAlike seeds other) :
    ofCameras seeds options = ofCameras other options := by
  rw [ofCameras, ofCameras, seed_congr h]

/-- The cameras that a registry lists, seeded again, make the same registry. -/
theorem Holds.ofCameras_toList (h : r.Holds seeds) : ofCameras r.toList r.options = .ok r := by
  have hseedable : ∀ c ∈ r.toList, c.IsSeedable := fun c hc => by
    obtain ⟨-, hsettled⟩ := h.get?_of_mem hc
    rw [← Camera.flaw?_refreshed_eq_none_iff r.options.preview, hsettled.refreshed_eq]
    exact hsettled.sound
  have hdistinct : (r.toList.map (·.index)).Nodup :=
    List.pairwise_map.2 (h.pairwise_toList.imp fun hlt heq => by simp [heq] at hlt)
  obtain ⟨t, ht⟩ := exists_ofCameras_iff.2 ⟨hseedable, hdistinct⟩
  obtain ⟨hholds, hoptions⟩ := holds_ofCameras ht
  have hentries : r.entries = t.entries := h.ascending.ext hholds.ascending fun e => by
    rw [mem_entries_ofCameras ht]
    constructor
    · intro he
      obtain ⟨hindex, hsettled, -⟩ := h.stored e.1 e.2 he
      exact ⟨e.2, List.mem_map_of_mem he, by rw [hindex, hsettled.refreshed_eq]⟩
    · rintro ⟨c, hc, rfl⟩
      obtain ⟨hget, hsettled⟩ := h.get?_of_mem hc
      rw [hsettled.refreshed_eq]
      exact h.get?.1 hget
  rw [ht, eq_of_entries hentries hoptions.symm]

/-- The demo fleet can be seeded under all options. -/
theorem exists_ofCameras_demoFleet (options : Options) :
    ∃ r, ofCameras DemoFleet.cameras options = .ok r :=
  exists_ofCameras_iff.2 (by decide +kernel)

/-- Which cameras can be seeded is told by their formats, their ranges, their active format and
their identifiers, and never by a description. The same registry comes from the cameras in any
order, with whatever is filled in anyway, and after any run from the cameras that it lists. -/
theorem ofCameras_determined (seeds : List Camera) (options : Options) :
    ((∃ r, ofCameras seeds options = .ok r) ↔
      (∀ c ∈ seeds, c.IsSeedable) ∧ (seeds.map (·.index)).Nodup) ∧
    (∀ i, ofCameras seeds options ≠ .error (.invalidSeed (.staleDescription i))) ∧
    (∀ reordered other, seeds.Perm reordered → List.Forall₂ Camera.SeedsAlike reordered other →
      ∀ r, ofCameras seeds options = .ok r ↔ ofCameras other options = .ok r) ∧
    ∀ r, ofCameras seeds options = .ok r → ∀ calls,
      ofCameras (r.run calls).toList options = .ok (r.run calls) := by
  refine ⟨exists_ofCameras_iff, fun i h => ?_, fun reordered other hperm halike r => ?_, ?_⟩
  · rcases ofCameras_error h with ⟨c, -, flaw, hflaw, he⟩ | ⟨c, -, he⟩
    · rw [Camera.Flaw.toDefect_eq_staleDescription_iff.1 (Failure.invalidSeed.inj he).symm] at hflaw
      exact c.flaw?_refreshed_ne_stale options.preview i hflaw
    · cases he
  · rw [ofCameras_perm hperm, ofCameras_congr halike]
  · intro r hr calls
    obtain ⟨hholds, rfl⟩ := holds_ofCameras hr
    have hagain := (hholds.run calls).ofCameras_toList
    rwa [run_options] at hagain

/-- The demo fleet in another order and with views of other formats, and as it is listed after a
switch of a format. -/
theorem ofCameras_determined_demoFleet :
    let options : Options := ⟨default, .clamp⟩
    let calls : List (Ident × Patch) := [(.number 1, ⟨some (.number 3), some 64⟩)]
    let stale (c : Camera) : Camera :=
      { c with src := "http://elsewhere", description := some "stale", resolution := ⟨1, 1⟩ }
    ∃ r, ofCameras DemoFleet.cameras options = .ok r ∧
      ofCameras (DemoFleet.cameras.reverse.map stale) options = .ok r ∧
      ofCameras (r.run calls).toList options = .ok (r.run calls) := by
  intro options calls stale
  obtain ⟨-, -, hsame, hagain⟩ := ofCameras_determined DemoFleet.cameras options
  obtain ⟨r, hr⟩ := exists_ofCameras_demoFleet options
  have himplied : ∀ c ∈ DemoFleet.cameras.reverse, ∀ f ∈ c.formats,
      f.impliedResolution? ≠ none := by decide +kernel
  have halike : ∀ c ∈ DemoFleet.cameras.reverse, c.SeedsAlike (stale c) := fun c hc =>
    ⟨⟨rfl, rfl, rfl, rfl⟩, rfl, rfl, fun f hf hnone =>
      absurd hnone (himplied c hc f (Camera.format?_some hf).1)⟩
  refine ⟨r, hr, (hsame _ _ (List.reverse_perm _).symm ?_ r).1 hr, hagain r hr calls⟩
  exact List.forall₂_map_right_iff.2 (List.forall₂_same.2 halike)

end Registry

end CameraFleet
