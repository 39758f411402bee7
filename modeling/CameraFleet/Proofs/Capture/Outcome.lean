import CameraFleet.DemoFleet
import CameraFleet.Proofs.Registry.Runs
import CameraFleet.Proofs.Service.Runs

/-!
# What comes of a capture

A source is missing or names one identifier, and the camera it stands for is looked up before
anything else (`find_eq_missing_iff`, `find_eq_notFound_iff`). So a capture is refused whatever
the source of raw data would say, or else it is of the camera that the listing shows, with the
location that is shown there (`resolved_as_listed`).
-/

namespace CameraFleet.Capture

/-- There is no source, or one of blanks alone. -/
def IsMissing (source : Option String) : Prop :=
  ∀ s ∈ source, Text.isBlankText s

/-- The text between the blanks of a source is that of an identifier. -/
def Names (source : Option String) (i : Ident) : Prop :=
  ∃ s ∈ source, Text.isBlankText s = false ∧ Ident.ofText (Text.trim s) = i

variable {r : Registry} {source : Option String} {i : Ident} {c : Camera} {e : Failure}

theorem isMissing_or_names (source : Option String) : IsMissing source ∨ ∃ i, Names source i := by
  rcases source with _ | s
  · exact Or.inl fun s hs => by simp at hs
  · rcases hblank : Text.isBlankText s with _ | _
    · exact Or.inr ⟨_, s, rfl, hblank, rfl⟩
    · refine Or.inl fun s' hs => ?_
      rwa [← Option.some.inj hs]

theorem parseSource_of_isMissing (h : IsMissing source) :
    parseSource source = .error (.missingParameter sourceParameter) := by
  rcases source with _ | s
  · rfl
  · simp [parseSource, h s rfl]

theorem parseSource_of_names (h : Names source i) : parseSource source = .ok i := by
  obtain ⟨s, rfl, hblank, rfl⟩ := h
  simp [parseSource, hblank]

theorem find_of_unknown (h : Names source i) (hi : r.get? i = none) :
    find r source = .error (.notFound i) := by
  simp [find, parseSource_of_names h, hi]

theorem find_of_known (h : Names source i) (hc : r.get? i = some c) :
    find r source = .ok (i, c) := by
  simp [find, parseSource_of_names h, hc]

theorem find_of_isMissing (h : IsMissing source) :
    find r source = .error (.missingParameter sourceParameter) := by
  simp [find, parseSource_of_isMissing h]

/-- Looking up the camera of a source comes to one of three things. -/
theorem find_cases (r : Registry) (source : Option String) :
    (IsMissing source ∧ find r source = .error (.missingParameter sourceParameter)) ∨
      (∃ i, Names source i ∧ r.get? i = none ∧ find r source = .error (.notFound i)) ∨
      ∃ i c, Names source i ∧ r.get? i = some c ∧ find r source = .ok (i, c) := by
  rcases isMissing_or_names source with h | ⟨i, h⟩
  · exact Or.inl ⟨h, find_of_isMissing h⟩
  · rcases hc : r.get? i with _ | c
    · exact Or.inr (Or.inl ⟨i, h, hc, find_of_unknown h hc⟩)
    · exact Or.inr (Or.inr ⟨i, c, h, hc, find_of_known h hc⟩)

theorem find_eq_missing_iff :
    find r source = .error (.missingParameter sourceParameter) ↔ IsMissing source := by
  refine ⟨fun h => ?_, find_of_isMissing⟩
  rcases find_cases r source with ⟨hmissing, -⟩ | ⟨j, -, -, hj⟩ | ⟨j, c, -, -, hj⟩
  · exact hmissing
  · simp [hj] at h
  · simp [hj] at h

theorem find_eq_notFound_iff :
    find r source = .error (.notFound i) ↔ Names source i ∧ r.get? i = none := by
  refine ⟨fun h => ?_, fun ⟨hnames, hnone⟩ => find_of_unknown hnames hnone⟩
  rcases find_cases r source with ⟨-, hj⟩ | ⟨j, hnames, hnone, hj⟩ | ⟨j, c, -, -, hj⟩
  · simp [hj] at h
  · rw [hj, Except.error.injEq, Failure.notFound.injEq] at h
    exact h ▸ ⟨hnames, hnone⟩
  · simp [hj] at h

theorem find_eq_ok_iff :
    find r source = .ok (i, c) ↔ Names source i ∧ r.get? i = some c := by
  refine ⟨fun h => ?_, fun ⟨hnames, hc⟩ => find_of_known hnames hc⟩
  rcases find_cases r source with ⟨-, hj⟩ | ⟨j, -, -, hj⟩ | ⟨j, d, hnames, hd, hj⟩
  · simp [hj] at h
  · simp [hj] at h
  · rw [hj, Except.ok.injEq, Prod.mk.injEq] at h
    obtain ⟨rfl, rfl⟩ := h
    exact ⟨hnames, hd⟩

/-- A source that names a seed finds the camera that is stored for it. -/
theorem exists_find {seeds : List Camera} {d : Camera} (h : r.Holds seeds) (hd : d ∈ seeds)
    (hnames : Names source d.index) : ∃ c, find r source = .ok (d.index, c) ∧ c.SameDevice d := by
  obtain ⟨c, hc, hdev⟩ := h.exists_stored hd
  obtain ⟨hget, -⟩ := h.get?_of_mem hc
  rw [hdev.index] at hget
  exact ⟨c, find_of_known hnames hget, hdev⟩

theorem still_of_find (h : find r source = .ok (i, c)) :
    still r source = .ok ⟨i, r.options.preview.render c.index c.resolution⟩ := by
  simp [still, h]

theorem raw_of_find (h : find r source = .ok (i, c)) (data : RawSource) :
    raw r data source = (data c).map fun bytes => ⟨i, bytes, filename i, c.frameRate⟩ := by
  rcases hdata : data c with e | bytes <;> simp [raw, h, hdata, Except.map]

theorem still_eq_error_iff : still r source = .error e ↔ find r source = .error e := by
  rcases h : find r source with e' | ⟨i, c⟩
  · simp [still, h]
  · simp [still_of_find h]

/-- What a raw capture is refused for under every source of raw data, it is refused for before
one is asked. -/
theorem raw_eq_error_iff :
    (∀ data, raw r data source = .error e) ↔ find r source = .error e := by
  rcases h : find r source with e' | ⟨i, c⟩
  · simp [raw, h]
  · simp only [raw_of_find h, reduceCtorEq, iff_false, not_forall]
    exact ⟨fun _ => .ok .empty, by simp [Except.map]⟩

theorem find_of_still {image : StillImage} (h : still r source = .ok image) :
    ∃ i c, find r source = .ok (i, c) ∧
      image = ⟨i, r.options.preview.render c.index c.resolution⟩ := by
  rcases hfind : find r source with e | ⟨i, c⟩
  · simp [still, hfind] at h
  · rw [still_of_find hfind, Except.ok.injEq] at h
    exact ⟨i, c, rfl, h.symm⟩

theorem find_of_raw {data : RawSource} {capture : RawCapture}
    (h : raw r data source = .ok capture) :
    ∃ i c bytes, find r source = .ok (i, c) ∧ data c = .ok bytes ∧
      capture = ⟨i, bytes, filename i, c.frameRate⟩ := by
  rcases hfind : find r source with e | ⟨i, c⟩
  · simp [raw, hfind] at h
  · rcases hdata : data c with e | bytes
    · simp [raw, hfind, hdata] at h
    · rw [raw_of_find hfind, hdata, Except.map, Except.ok.injEq] at h
      exact ⟨i, c, bytes, rfl, hdata, h.symm⟩

/-- A request for a still image or for raw data. -/
def IsCapture (q : Http.Request) : Prop :=
  (Http.Target.ofText q.target).path = Route.captureImage.path ∨
    (Http.Target.ofText q.target).path = Route.captureBinary.path

theorem IsCapture.respond_snd {q : Http.Request} (h : IsCapture q) (s : Service) (time : String) :
    (s.respond time q).2 = s := by
  refine Service.respond_other fun ⟨_, hpath⟩ => ?_
  rcases h with h | h <;> rw [h] at hpath <;> exact absurd hpath (by decide)

variable {seeds : List Camera} {options : Registry.Options} {r₀ : Registry}

/-- After any patches, a capture is refused, under whatever source of raw data, exactly when its
source is missing or names no listed camera. Otherwise a still image is at the place that the
listing shows for the camera, and a raw capture is what the source of raw data has for it, an
error included. No capture changes anything. -/
theorem resolved_as_listed (h : Registry.ofCameras seeds options = .ok r₀)
    (calls : List (Ident × Patch)) (source : Option String) :
    let r := r₀.run calls
    (still r source = .error (.missingParameter "source") ↔ IsMissing source) ∧
    ((∀ data, raw r data source = .error (.missingParameter "source")) ↔ IsMissing source) ∧
    (∀ i, still r source = .error (.notFound i) ↔
      Names source i ∧ i ∉ r.toList.map (·.index)) ∧
    (∀ i, (∀ data, raw r data source = .error (.notFound i)) ↔
      Names source i ∧ i ∉ r.toList.map (·.index)) ∧
    (IsMissing source ∨ ∃ i, Names source i) ∧
    (∀ c ∈ r.toList, Names source c.index →
      still r source = .ok ⟨c.index, c.src⟩ ∧
      ∀ data, (∀ e, data c = .error e → raw r data source = .error e) ∧
        ∀ bytes, data c = .ok bytes → raw r data source =
          .ok ⟨c.index, bytes, "camera_" ++ c.index.toText ++ "_raw.bin", c.frameRate⟩) ∧
    ∀ (s : Service) (time : String) (q : Http.Request), s.registry = r → IsCapture q →
      (s.respond time q).2.registry = r := by
  intro r
  have hr : r.Holds seeds := (Registry.holds_ofCameras h).1.run calls
  refine ⟨still_eq_error_iff.trans find_eq_missing_iff,
    raw_eq_error_iff.trans find_eq_missing_iff, fun i => ?_, fun i => ?_,
    isMissing_or_names source, fun c hc hnames => ?_, fun s time q hs hq => ?_⟩
  · rw [still_eq_error_iff, find_eq_notFound_iff, hr.get?_eq_none_iff]
  · rw [raw_eq_error_iff, find_eq_notFound_iff, hr.get?_eq_none_iff]
  · obtain ⟨hget, hsettled⟩ := hr.get?_of_mem hc
    have hfind : find r source = .ok (c.index, c) := find_of_known hnames hget
    refine ⟨by rw [still_of_find hfind, hsettled.src], fun data => ⟨fun e he => ?_, fun b hb => ?_⟩⟩
    · simp [raw_of_find hfind, he, Except.map]
    · simp [raw_of_find hfind, hb, Except.map, filename]
  · rw [hq.respond_snd, hs]

/-- The second camera of the demo fleet, captured after a switch of its format. -/
theorem resolved_as_listed_demoFleet :
    ∃ r₀, Registry.ofCameras DemoFleet.cameras default = .ok r₀ ∧
      let r := r₀.run [(.number 1, ⟨some (.number 3), none⟩)]
      ∃ c ∈ r.toList, c.index = .number 1 ∧ still r (some " 1 ") = .ok ⟨.number 1, c.src⟩ := by
  have hok : (Registry.ofCameras DemoFleet.cameras default).isOk := by decide +kernel
  rcases h : Registry.ofCameras DemoFleet.cameras default with e | r₀
  · rw [h] at hok
    exact absurd hok Bool.false_ne_true
  · have hmem : Ident.number 1 ∈ DemoFleet.cameras.map (·.index) := by decide
    obtain ⟨hr, -⟩ := Registry.holds_ofCameras h
    have hrun := hr.run [(.number 1, ⟨some (.number 3), none⟩)]
    obtain ⟨⟨k, c⟩, hc, rfl⟩ := List.mem_map.1 ((hrun.keys _).2 hmem)
    obtain ⟨hindex, -⟩ := hrun.stored _ c hc
    have hlisted : c ∈ (r₀.run [(.number 1, ⟨some (.number 3), none⟩)]).toList :=
      List.mem_map_of_mem hc
    have hnames : Names (some " 1 ") c.index := ⟨_, rfl, by decide, hindex ▸ by decide⟩
    obtain ⟨-, -, -, -, -, hstored, -⟩ := resolved_as_listed h _ (some " 1 ")
    refine ⟨r₀, rfl, c, hlisted, hindex, ?_⟩
    rw [(hstored c hlisted hnames).1, hindex]

end CameraFleet.Capture
