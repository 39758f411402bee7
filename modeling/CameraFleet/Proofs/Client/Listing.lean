import CameraFleet.Proofs.Client.Rooted
import CameraFleet.Proofs.Listing
import CameraFleet.Proofs.Service.Runs
import CameraFleet.Proofs.Settings.Loading

/-!
# What is configured and what is served

A client that asks a service for the listing is given the cameras of the registry as they are
just when every configured camera is servable (`Client.fetchCameras_iff`): its identifiers are
canonical and its rate is read back from its own text. No request changes that, since it is a
property of the devices. A single rate that a document has no number for makes the listing
unreadable.
-/

namespace CameraFleet

namespace Camera

/-- What is fixed of the camera can be told in a listing. -/
structure IsServable (c : Camera) : Prop where
  index : c.index.IsCanonical
  formats : ∀ f ∈ c.formats, f.id.IsCanonical
  rate : Json.ReadsBack c.frameRate

variable {c d : Camera}

theorem isServable_iff : c.IsServable ↔ c.index.IsCanonical ∧
    (∀ f ∈ c.formats, f.id.IsCanonical) ∧ Json.ReadsBack c.frameRate :=
  ⟨fun ⟨hi, hf, hr⟩ => ⟨hi, hf, hr⟩, fun ⟨hi, hf, hr⟩ => ⟨hi, hf, hr⟩⟩

instance (c : Camera) : Decidable c.IsServable :=
  decidable_of_iff' _ isServable_iff

theorem SameDevice.isServable_iff (h : c.SameDevice d) : c.IsServable ↔ d.IsServable := by
  rw [Camera.isServable_iff, Camera.isServable_iff, h.index, h.formats, h.frameRate]

/-- The active format of a sound camera is one of its formats, so its identifier is no further
condition. -/
theorem isPortable_iff (h : c.flaw? = none) : c.IsPortable ↔ c.IsServable := by
  obtain ⟨-, -, f, hf, -⟩ := (flaw?_eq_none_iff c).1 h
  obtain ⟨hmem, hid⟩ := format?_some hf
  constructor
  · rintro ⟨⟨hindex, -, hformats⟩, hrate⟩
    exact ⟨hindex, hformats, hrate⟩
  · rintro ⟨hindex, hformats, hrate⟩
    exact ⟨⟨hindex, hid ▸ hformats f hmem, hformats⟩, hrate⟩

end Camera

namespace Registry

variable {r : Registry} {seeds : List Camera}

theorem Holds.forall_isPortable_iff (h : r.Holds seeds) :
    (∀ c ∈ r.toList, c.IsPortable) ↔ ∀ d ∈ seeds, d.IsServable := by
  constructor
  · intro hall d hd
    obtain ⟨c, hc, hdev⟩ := h.exists_stored hd
    exact hdev.isServable_iff.1 ((Camera.isPortable_iff (h.exists_seed hc).1).1 (hall c hc))
  · intro hall c hc
    obtain ⟨hsound, d, hd, hdev⟩ := h.exists_seed hc
    exact (Camera.isPortable_iff hsound).2 (hdev.isServable_iff.2 (hall d hd))

end Registry

namespace Service

/-- The request for the listing is answered with the cameras of the registry. -/
theorem respond_listing (s : Service) (time : String) :
    (s.respond time ⟨"GET", Route.cameraInfo.path, [], .empty⟩).1.status = 200 ∧
      (s.respond time ⟨"GET", Route.cameraInfo.path, [], .empty⟩).1.body =
        (Json.render (Listing.toDatum ⟨s.registry.toList⟩)).toUTF8 := by
  have hroute : Route.ofPath? (Http.Target.ofText Route.cameraInfo.path).path =
      some .cameraInfo := by decide
  have hallowed : "GET" ∈ Route.cameraInfo.methods := by decide
  simp only [respond, dispatch, hroute, hallowed, handle, String.reduceEq, if_true, if_false]
  exact ⟨rfl, rfl⟩

end Service

namespace Client

variable {c : Client}

theorem fetchCameras_eq (hc : c.IsRooted) (s : Service) (now : String) :
    (c.fetchCameras (Service.link now) s).1 =
      readListing (s.respond now ⟨"GET", Route.cameraInfo.path, [], .empty⟩).1 := by
  have hrequest : c.listingRequest? = some ⟨"GET", Route.cameraInfo.path, [], .empty⟩ := by
    rw [listingRequest?, hc]
    rfl
  rw [fetchCameras, hrequest, exchange_link]

theorem fetchCameras_link_iff (hc : c.IsRooted) (s : Service) (now : String) :
    (c.fetchCameras (Service.link now) s).1 = .ok s.registry.toList ↔
      ∀ d ∈ s.registry.toList, d.IsPortable := by
  obtain ⟨hstatus, hbody⟩ := s.respond_listing now
  rw [fetchCameras_eq hc, readListing_iff hstatus hbody]

/-- After any requests to a service with loaded settings, a client that asks for the listing is
given the cameras of the registry, each as it is, just when all configured cameras are servable.
A configured rate that is not finite makes every listing unreadable. The demo fleet is always
served. -/
theorem fetchCameras_iff {disk : Settings.Disk} {options : Settings.LoadOptions}
    {environment : Settings.Environment} {loaded : Settings.Loaded} {raw : RawSource} {s : Service}
    (hload : Settings.load disk options environment = .ok loaded)
    (hs : Service.ofSettings loaded.settings raw = .ok s) (hc : c.IsRooted) (time : String)
    (requests : List Http.Request) (now : String) :
    let t := (s.respondAll time requests).2
    let fetched := (c.fetchCameras (Service.link now) t).1
    (fetched = .ok t.registry.toList ↔ ∀ d ∈ loaded.settings.cameras, d.IsServable) ∧
      ((∃ d ∈ loaded.settings.cameras, ¬ d.frameRate.isFinite) →
        fetched = .error .undecodable) ∧
      (loaded.settings.cameraSource = .demo → fetched = .ok t.registry.toList) := by
  intro t fetched
  have hholds : t.registry.Holds loaded.settings.cameras :=
    Service.holds_respondAll hs time requests
  have hiff : fetched = .ok t.registry.toList ↔
      ∀ d ∈ loaded.settings.cameras, d.IsServable := by
    rw [← hholds.forall_isPortable_iff]
    exact fetchCameras_link_iff hc t now
  refine ⟨hiff, ?_, fun hdemo => ?_⟩
  · rintro ⟨d, hd, hrate⟩
    obtain ⟨e, he, hdev⟩ := hholds.exists_stored hd
    obtain ⟨hstatus, hbody⟩ := t.respond_listing now
    rw [← hdev.frameRate] at hrate
    exact (fetchCameras_eq hc t now).trans (readListing_of_not_isFinite hstatus hbody he hrate)
  · obtain ⟨path, file, env, found, hcompose⟩ := Settings.compose_of_load hload
    obtain ⟨hcameras, -, -⟩ := Settings.compose_ok hcompose
    rw [hdemo] at hcameras
    have hfleet : ∀ d ∈ DemoFleet.cameras, d.IsServable := by decide +kernel
    rw [hiff, Settings.findCameras_demo hcameras]
    exact hfleet

/-- A settings file with one camera, given the text of its rate. -/
def oneCameraFile (rate : String) : String :=
  "[[cameras]]\nindex = 0\ncurrentFrameRate = " ++ rate ++
    "\ncurrentImageFormat = 1\ncurrentResolution = [640, 480]\n" ++
    "[[cameras.imageFormats]]\nid = 1\ndescription = \"RGB 640x480\"\n"

/-- The disk with the settings file alone. -/
def oneCameraDisk (rate : String) : Settings.Disk :=
  ⟨[(["ferrocam.toml"], (oneCameraFile rate).toUTF8)], []⟩

/-- What is loaded from the disk, given the rate. -/
def oneCameraLoaded (rate : Binary64) : Settings.Loaded where
  settings := {
    host := "0.0.0.0", port := 8080
    cors := ⟨["http://localhost:5173", "http://localhost:8080"], ["GET", "POST", "OPTIONS"],
      ["Content-Type"]⟩
    template := Preview.defaultTemplate, policy := .permissive
    cameras := [⟨.number 0, none, "", rate, .number 1, none, none, ⟨640, 480⟩,
      [⟨.number 1, "RGB 640x480", none, none⟩]⟩]
    devMode := false, configPath := some "ferrocam.toml", envFileLoaded := false
    cameraSource := .inline "ferrocam.toml" }
  warnings := []

theorem fetchCameras_iff_one_camera :
    let loaded := oneCameraLoaded (.ofDecimal false 2997 (-2))
    let client : Client := ⟨⟨"http://" ++ String.ofList ("localhost".toList ++ ':' ::
      Natural.digits (8080 : UInt16).toNat)⟩⟩
    Settings.load (oneCameraDisk "29.97") ⟨none, none⟩ [] = .ok loaded ∧
      ∃ s, Service.ofSettings loaded.settings .synthetic = .ok s ∧
        (client.fetchCameras (Service.link "now") s).1 = .ok s.registry.toList := by
  intro loaded client
  have hload : Settings.load (oneCameraDisk "29.97") ⟨none, none⟩ [] = .ok loaded :=
    (Settings.load_settingsFile _).trans (by decide +kernel)
  obtain ⟨s, hs⟩ :=
    Service.exists_ofSettings loaded.settings .synthetic (by decide +kernel)
  have hservable : ∀ d ∈ loaded.settings.cameras, d.IsServable := by decide +kernel
  exact ⟨hload, s, hs,
    (fetchCameras_iff hload hs (isRooted_localhost 8080) "now" [] "now").1.2 hservable⟩

/-- A settings file may give an infinite rate. The cameras are checked and served, but no client
can read the listing. -/
theorem fetchCameras_of_infinite_rate :
    let loaded := oneCameraLoaded (.infinity false)
    let client : Client := ⟨⟨"http://" ++ String.ofList ("localhost".toList ++ ':' ::
      Natural.digits (8080 : UInt16).toNat)⟩⟩
    Settings.load (oneCameraDisk "inf") ⟨none, none⟩ [] = .ok loaded ∧
      ∃ s, Service.ofSettings loaded.settings .synthetic = .ok s ∧
        (client.fetchCameras (Service.link "now") s).1 = .error .undecodable := by
  intro loaded client
  obtain ⟨s, hs⟩ :=
    Service.exists_ofSettings loaded.settings .synthetic (by decide +kernel)
  have hholds : s.registry.Holds loaded.settings.cameras := Service.holds_respondAll hs "now" []
  obtain ⟨e, he, hdev⟩ := hholds.exists_stored List.mem_cons_self
  obtain ⟨hstatus, hbody⟩ := s.respond_listing "now"
  refine ⟨(Settings.load_settingsFile _).trans (by decide +kernel), s, hs, ?_⟩
  rw [fetchCameras_eq (isRooted_localhost 8080)]
  refine readListing_of_not_isFinite hstatus hbody he ?_
  rw [hdev.frameRate]
  decide

end Client

end CameraFleet
