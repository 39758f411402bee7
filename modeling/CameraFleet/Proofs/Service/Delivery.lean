import CameraFleet.Proofs.Capture
import CameraFleet.Proofs.Number.Shortest
import CameraFleet.Proofs.Preview
import CameraFleet.Proofs.Service.Answers

/-!
# The delivery of captures

A capture is delivered in headers, and not every text can be the value of a header. So a service
delivers all captures that can be asked for just when its template and the indices that a source
can name have no control characters (`Service.deliversCaptures_iff`). Nothing checks that when
the settings are loaded.
-/

namespace CameraFleet

open Http (IsSendable isHeaderValue isHeaderValue_iff isHeaderValue_append isSendable_of_isDigit)

namespace Binary64

theorem mem_positional {d : Decimal} {c : Char} (hdigits : ∀ c ∈ d.digits, c.isDigit)
    (hc : c ∈ d.positional []) : c.isDigit ∨ c = '.' := by
  have hzeros : ∀ n, ∀ c ∈ List.replicate n '0', c.isDigit := fun n c hc => by
    rw [List.eq_of_mem_replicate hc]
    rfl
  unfold Decimal.positional at hc
  by_cases hpoint : d.point ≤ 0
  · simp only [if_pos hpoint, List.mem_cons, List.mem_append] at hc
    rcases hc with rfl | rfl | hc | hc
    · exact Or.inl rfl
    · exact Or.inr rfl
    · exact Or.inl (hzeros _ c hc)
    · exact Or.inl (hdigits c hc)
  · by_cases hinside : d.point.toNat < d.digits.length
    · simp only [if_neg hpoint, if_pos hinside, List.mem_cons, List.mem_append] at hc
      rcases hc with hc | rfl | hc
      · exact Or.inl (hdigits c (List.mem_of_mem_take hc))
      · exact Or.inr rfl
      · exact Or.inl (hdigits c (List.mem_of_mem_drop hc))
    · simp only [if_neg hpoint, if_neg hinside, List.append_nil, List.mem_append] at hc
      rcases hc with hc | hc
      · exact Or.inl (hdigits c hc)
      · exact Or.inl (hzeros _ c hc)

theorem isDigit_of_mem_digits_of {m : Nat} {e : Int} {c : Char}
    (hc : c ∈ (Decimal.of m e).digits) : c.isDigit := by
  have hmem : c ∈ Natural.digits m := by
    rw [← stripZeros_append (Natural.digits m)]
    exact List.mem_append_left _ hc
  exact Natural.isDigit_of_mem_digits hmem

/-- No number is written with a control character. -/
theorem isHeaderValue_plain (x : Binary64) : isHeaderValue x.plain := by
  have hsigned : ∀ (negative : Bool) {cs : List Char}, (∀ c ∈ cs, IsSendable c) →
      isHeaderValue (String.ofList (signed negative cs)) := by
    intro negative cs hcs
    rw [isHeaderValue_iff, String.toList_ofList]
    cases negative with
    | false => exact hcs
    | true => exact List.forall_mem_cons.2 ⟨Or.inl (by decide), hcs⟩
  cases x with
  | nan => rfl
  | infinity negative => exact hsigned negative (by simp [IsSendable])
  | finite negative rank =>
    refine hsigned negative fun c hc => ?_
    by_cases hzero : rank.val = 0
    · rw [if_pos hzero, List.mem_singleton] at hc
      exact isSendable_of_isDigit (hc ▸ rfl)
    · obtain ⟨m, e, hshortest, -⟩ := shortest_reads negative hzero
      rw [if_neg hzero, hshortest] at hc
      rcases mem_positional (fun _ => isDigit_of_mem_digits_of) hc with hdigit | rfl
      · exact isSendable_of_isDigit hdigit
      · exact Or.inl (by decide)

end Binary64

/-- An address with an index that can be sent can be sent just when its template can. -/
theorem Preview.isHeaderValue_render {p : Preview} {index : Ident}
    (hindex : isHeaderValue index.toText) (r : Resolution) :
    isHeaderValue (p.render index r) ↔ isHeaderValue p.template := by
  have hslots : Preview.OfSlots IsSendable := by
    have htexts : isHeaderValue "\x7bwidth\x7d" ∧ isHeaderValue "\x7bheight\x7d" ∧
        isHeaderValue "\x7bindex\x7d" := by decide +kernel
    intro slot
    cases slot with
    | width => exact isHeaderValue_iff.1 htexts.1
    | height => exact isHeaderValue_iff.1 htexts.2.1
    | index => exact isHeaderValue_iff.1 htexts.2.2
  rw [isHeaderValue_iff, isHeaderValue_iff]
  exact forall_mem_render hslots (fun _ => isSendable_of_isDigit) (isHeaderValue_iff.1 hindex) r

theorem Capture.isHeaderValue_disposition {index : Ident} :
    isHeaderValue (Service.disposition (filename index)) ↔ isHeaderValue index.toText := by
  obtain ⟨hfront, hcamera, hraw, hback⟩ : isHeaderValue "attachment; filename=\"" ∧
      isHeaderValue "camera_" ∧ isHeaderValue "_raw.bin" ∧ isHeaderValue "\"" := by
    decide +kernel
  unfold Service.disposition filename
  rw [isHeaderValue_append, isHeaderValue_append, isHeaderValue_append, isHeaderValue_append,
    and_iff_left hback, and_iff_right hfront, and_iff_left hraw, and_iff_right hcamera]

namespace Service

open Http (Headers.get? Headers.get?_cons)

variable {r : Registry} {data : RawSource} {source : Option String}

theorem captureImage_of_valid {still : StillImage} (h : Capture.still r source = .ok still)
    (hvalid : isHeaderValue still.location) :
    captureImage r source = ⟨302, [("location", still.location)], .empty⟩ := by
  unfold captureImage
  rw [h]
  exact Http.Response.withHeaders_of_valid (by simpa using hvalid)

theorem captureImage_of_invalid {still : StillImage} (h : Capture.still r source = .ok still)
    (hinvalid : ¬ isHeaderValue still.location) :
    captureImage r source = .text 302 "failed to parse header value" := by
  unfold captureImage
  rw [h]
  exact Http.Response.withHeaders_of_invalid (by simpa using hinvalid)

theorem disposition_filename (index : Ident) : disposition (Capture.filename index) =
    "attachment; filename=\"camera_" ++ index.toText ++ "_raw.bin\"" := by
  have hfront : "attachment; filename=\"camera_" = "attachment; filename=\"" ++ "camera_" := by
    decide +kernel
  have hback : "_raw.bin\"" = "_raw.bin" ++ "\"" := by decide +kernel
  unfold disposition Capture.filename
  rw [hfront, hback]
  simp only [String.append_assoc]

theorem isHeaderValue_downloadHeaders {capture : RawCapture} :
    (∀ x ∈ downloadHeaders capture, isHeaderValue x.2) ↔
      isHeaderValue (disposition capture.filename) := by
  have hfixed : isHeaderValue "application/octet-stream" ∧ isHeaderValue "no-store" := by
    decide +kernel
  simp [downloadHeaders, hfixed, Binary64.isHeaderValue_plain]

theorem captureBinary_of_valid {capture : RawCapture}
    (h : Capture.raw r data source = .ok capture)
    (hvalid : isHeaderValue (disposition capture.filename)) :
    captureBinary r data source = ⟨200, downloadHeaders capture, capture.bytes⟩ := by
  unfold captureBinary
  rw [h]
  exact Http.Response.withHeaders_of_valid (isHeaderValue_downloadHeaders.2 hvalid)

theorem captureBinary_of_invalid {capture : RawCapture}
    (h : Capture.raw r data source = .ok capture)
    (hinvalid : ¬ isHeaderValue (disposition capture.filename)) :
    captureBinary r data source = .text 500 "failed to parse header value" := by
  unfold captureBinary
  rw [h]
  exact Http.Response.withHeaders_of_invalid (mt isHeaderValue_downloadHeaders.1 hinvalid)

/-- An answer that sends the client to a location. -/
structure RefersTo (a : Http.Response) (location : String) : Prop where
  status : a.status = 302
  location : Headers.get? a.headers "location" = some location

/-- An answer with raw data as a download. -/
structure Downloads (a : Http.Response) (capture : RawCapture) : Prop where
  status : a.status = 200
  type : Headers.get? a.headers "content-type" = some "application/octet-stream"
  filename : Headers.get? a.headers "content-disposition" =
    some ("attachment; filename=\"camera_" ++ capture.index.toText ++ "_raw.bin\"")
  caching : Headers.get? a.headers "cache-control" = some "no-store"
  frameRate : Headers.get? a.headers "x-framerate" = some capture.frameRate.plain
  body : a.body = capture.bytes

/-- Every capture that resolves is answered with what it resolves to, no answer refers to
nowhere, and none says that the service failed. -/
structure DeliversCaptures (t : Service) : Prop where
  image : ∀ time q source still, Asks q .captureImage source →
    Capture.still t.registry source = .ok still → RefersTo (t.respond time q).1 still.location
  binary : ∀ time q source capture, Asks q .captureBinary source →
    Capture.raw t.registry t.raw source = .ok capture → Downloads (t.respond time q).1 capture
  located : ∀ time q, (t.respond time q).1.status = 302 →
    ∃ location, RefersTo (t.respond time q).1 location
  unfailing : ∀ time q, (t.respond time q).1.status ≠ 500

variable {t : Service} {time : String} {q : Http.Request}

theorem refersTo_of_headers {a : Http.Response} {location : String} (hstatus : a.status = 302)
    (hheaders : a.headers = [("location", location)] ++ siteHeaders t q) :
    RefersTo a location := by
  refine ⟨hstatus, ?_⟩
  rw [hheaders, get?_append_siteHeaders (by decide)]
  simp (disch := decide) [Headers.get?_cons]

theorem refersTo_of_valid {still : StillImage} (hasks : Asks q .captureImage source)
    (h : Capture.still t.registry source = .ok still) (hvalid : isHeaderValue still.location) :
    RefersTo (t.respond time q).1 still.location := by
  obtain ⟨hstatus, hheaders, -⟩ := respond_captureImage t time hasks
  rw [captureImage_of_valid h hvalid] at hstatus hheaders
  exact refersTo_of_headers hstatus hheaders

theorem get?_downloadHeaders (capture : RawCapture) :
    Headers.get? (downloadHeaders capture) "content-type" = some "application/octet-stream" ∧
      Headers.get? (downloadHeaders capture) "content-disposition" =
        some (disposition capture.filename) ∧
      Headers.get? (downloadHeaders capture) "cache-control" = some "no-store" ∧
      Headers.get? (downloadHeaders capture) "x-framerate" = some capture.frameRate.plain := by
  simp (disch := decide) [downloadHeaders, Headers.get?_cons]

theorem downloads_of_valid {capture : RawCapture} (hasks : Asks q .captureBinary source)
    (h : Capture.raw t.registry t.raw source = .ok capture)
    (hvalid : isHeaderValue (disposition capture.filename)) :
    Downloads (t.respond time q).1 capture := by
  obtain ⟨hstatus, hheaders, hbody⟩ := respond_captureBinary t time hasks
  rw [captureBinary_of_valid h hvalid] at hstatus hheaders hbody
  have hget : ∀ name ∉ Http.Cors.siteNames, Headers.get? (t.respond time q).1.headers name =
      Headers.get? (downloadHeaders capture) name := fun name hname => by
    rw [hheaders, get?_append_siteHeaders hname]
  obtain ⟨htype, hname, hcaching, hrate⟩ := get?_downloadHeaders capture
  have hfilename : capture.filename = Capture.filename capture.index := by
    obtain ⟨i, c, bytes, -, -, rfl⟩ := Capture.find_of_raw h
    rfl
  rw [hfilename, disposition_filename] at hname
  exact ⟨hstatus, (hget _ (by decide)).trans htype, (hget _ (by decide)).trans hname,
    (hget _ (by decide)).trans hcaching, (hget _ (by decide)).trans hrate, hbody⟩

theorem unlocated_of_invalid {still : StillImage} (hasks : Asks q .captureImage source)
    (h : Capture.still t.registry source = .ok still) (hinvalid : ¬ isHeaderValue still.location) :
    (t.respond time q).1.status = 302 ∧
      Headers.get? (t.respond time q).1.headers "location" = none := by
  obtain ⟨hstatus, hheaders, -⟩ := respond_captureImage t time hasks
  rw [captureImage_of_invalid h hinvalid] at hstatus hheaders
  refine ⟨hstatus, ?_⟩
  rw [hheaders, get?_append_siteHeaders (by decide)]
  simp (disch := decide) [Http.Response.text, Headers.get?_cons]

theorem failing_of_invalid {capture : RawCapture} (hasks : Asks q .captureBinary source)
    (h : Capture.raw t.registry t.raw source = .ok capture)
    (hinvalid : ¬ isHeaderValue (disposition capture.filename)) :
    (t.respond time q).1.status = 500 := by
  obtain ⟨hstatus, -, -⟩ := respond_captureBinary t time hasks
  rwa [captureBinary_of_invalid h hinvalid] at hstatus

/-- Raw data that tell their camera are only refused for its source. -/
theorem status_refused_synthetic {e : Failure}
    (h : Capture.raw r .synthetic source = .error e) :
    (Refusal.ofFailure e).status ∈ [400, 404] := by
  rcases Capture.find_cases r source with ⟨-, hfind⟩ | ⟨i, -, -, hfind⟩ | ⟨i, c, -, -, hfind⟩
  · simp only [Capture.raw, hfind, Except.error.injEq] at h
    subst h
    simp [Refusal.ofFailure, Refusal.badRequest]
  · simp only [Capture.raw, hfind, Except.error.injEq] at h
    subst h
    simp [Refusal.ofFailure, Refusal.notFound]
  · simp [Capture.raw_of_find hfind, RawSource.synthetic, Except.map] at h

/-- Raw data that tell their camera are there for each camera that is found. -/
theorem raw_of_synthetic {i : Ident} {c : Camera} (hdata : t.raw = .synthetic)
    (h : Capture.find t.registry source = .ok (i, c)) :
    Capture.raw t.registry t.raw source =
      .ok ⟨i, ("Mock binary data for camera " ++ c.index.toText).toUTF8, Capture.filename i,
        c.frameRate⟩ := by
  rw [Capture.raw_of_find h, hdata, RawSource.synthetic, Except.map]

/-- Where all addresses of images and all names of files can be sent, an answer has a location or
another status than a redirection and a failure of the service. -/
theorem Answers.located_or_status {a : Http.Response} (ha : Answers t a)
    (hdata : t.raw = .synthetic)
    (himage : ∀ source still, Capture.still t.registry source = .ok still →
      isHeaderValue still.location)
    (hbinary : ∀ source capture, Capture.raw t.registry t.raw source = .ok capture →
      isHeaderValue (disposition capture.filename)) :
    (a.status = 302 ∧ ∃ location, a.headers = [("location", location)]) ∨
      a.status ∈ [200, 400, 404, 405, 413] := by
  cases ha with
  | image hstill =>
    rw [Http.Response.withHeaders_of_valid (by simpa using himage _ _ hstill)]
    exact Or.inl ⟨rfl, _, rfl⟩
  | binary hcapture =>
    rw [Http.Response.withHeaders_of_valid
      (isHeaderValue_downloadHeaders.2 (hbinary _ _ hcapture))]
    exact Or.inr List.mem_cons_self
  | refused hrefused =>
    rw [hdata] at hrefused
    have hstatus := status_refused_synthetic hrefused
    refine Or.inr ?_
    simp only [Refusal.plain, Http.Response.text, List.mem_cons, List.not_mem_nil,
      or_false] at hstatus ⊢
    omega
  | document hstatus d =>
    refine Or.inr ?_
    simp only [Http.Response.json, List.mem_cons, List.not_mem_nil, or_false] at hstatus ⊢
    omega
  | _ => exact Or.inr (by simp [Http.Response.empty, Http.Response.text])

/-- If no address of an image and no name of a file has control characters, all is delivered. -/
theorem deliversCaptures_of_valid (hdata : t.raw = .synthetic)
    (himage : ∀ source still, Capture.still t.registry source = .ok still →
      isHeaderValue still.location)
    (hbinary : ∀ source capture, Capture.raw t.registry t.raw source = .ok capture →
      isHeaderValue (disposition capture.filename)) : DeliversCaptures t where
  image time q source still hasks hstill :=
    refersTo_of_valid hasks hstill (himage _ _ hstill)
  binary time q source capture hasks hcapture :=
    downloads_of_valid hasks hcapture (hbinary _ _ hcapture)
  located time q h302 := by
    rcases respond_cases t time q with ⟨-, hstatus, -⟩ | ⟨a, ha, hstatus, hheaders, -⟩
    · simp [hstatus] at h302
    rcases ha.located_or_status hdata himage hbinary with ⟨-, location, hlocation⟩ | hother
    · rw [hlocation] at hheaders
      exact ⟨location, refersTo_of_headers h302 hheaders⟩
    · simp [← hstatus, h302] at hother
  unfailing time q h500 := by
    rcases respond_cases t time q with ⟨-, hstatus, -⟩ | ⟨a, ha, hstatus, -, -⟩
    · simp [hstatus] at h500
    rcases ha.located_or_status hdata himage hbinary with ⟨h302, -⟩ | hother
    · simp [hstatus, h302] at h500
    · simp [← hstatus, h500] at hother

/-- After any requests a service whose raw data tell their camera delivers all captures just when
its template and the indices that a source can name have no control characters. -/
theorem deliversCaptures_iff {settings : Settings} {s : Service}
    (hs : ofSettings settings .synthetic = .ok s) (time : String)
    (requests : List Http.Request) :
    DeliversCaptures (s.respondAll time requests).2 ↔
      ∀ d ∈ settings.cameras, (∃ source, Capture.Names source d.index) →
        isHeaderValue settings.template ∧ isHeaderValue d.index.toText := by
  obtain ⟨-, hraw, hregistry⟩ := ofSettings_ok hs
  have hholds := holds_respondAll hs time requests
  have hdata : (s.respondAll time requests).2.raw = .synthetic := by rw [raw_respondAll, hraw]
  have hpreview : (s.respondAll time requests).2.registry.options.preview =
      ⟨settings.template⟩ := by
    rw [options_respondAll, Settings.preview_registry hregistry]
  generalize (s.respondAll time requests).2 = t at hholds hdata hpreview ⊢
  constructor
  · rintro h d hd ⟨source, hnames⟩
    obtain ⟨c, hfind, hdev⟩ := Capture.exists_find hholds hd hnames
    obtain ⟨x, rfl, -⟩ := hnames
    have hcapture := raw_of_synthetic hdata hfind
    have hindex : isHeaderValue d.index.toText := by
      by_contra hinvalid
      refine h.unfailing "" _ (failing_of_invalid (asks_sourceRequest .captureBinary x) hcapture ?_)
      rwa [Capture.isHeaderValue_disposition]
    have hstill := Capture.still_of_find hfind
    have himage := h.image "" _ _ _ (asks_sourceRequest .captureImage x) hstill
    have hlocation : isHeaderValue (t.registry.options.preview.render c.index c.resolution) := by
      by_contra hinvalid
      obtain ⟨-, hnone⟩ := unlocated_of_invalid (asks_sourceRequest .captureImage x) hstill hinvalid
      exact Option.some_ne_none _ (himage.location.symm.trans hnone)
    rw [hdev.index, hpreview, Preview.isHeaderValue_render hindex] at hlocation
    exact ⟨hlocation, hindex⟩
  · intro h
    have hfound : ∀ source i c, Capture.find t.registry source = .ok (i, c) → c.index = i ∧
        isHeaderValue settings.template ∧ isHeaderValue i.toText := by
      intro source i c hfind
      obtain ⟨hnames, hget⟩ := Capture.find_eq_ok_iff.1 hfind
      obtain ⟨hc, rfl⟩ := hholds.mem_of_get? hget
      obtain ⟨-, d, hd, hdev⟩ := hholds.exists_seed hc
      rw [hdev.index] at hnames ⊢
      exact ⟨rfl, h d hd ⟨source, hnames⟩⟩
    refine deliversCaptures_of_valid hdata (fun source still hstill => ?_)
      fun source capture hcapture => ?_
    · obtain ⟨i, c, hfind, rfl⟩ := Capture.find_of_still hstill
      obtain ⟨rfl, htemplate, hindex⟩ := hfound _ _ _ hfind
      rw [hpreview, Preview.isHeaderValue_render hindex]
      exact htemplate
    · obtain ⟨i, c, bytes, hfind, -, rfl⟩ := Capture.find_of_raw hcapture
      obtain ⟨rfl, -, hindex⟩ := hfound _ _ _ hfind
      exact Capture.isHeaderValue_disposition.2 hindex

theorem deliversCaptures_iff_named_left : ∃ s,
    ofSettings (Capture.namedLoaded "left").settings .synthetic = .ok s ∧ DeliversCaptures s := by
  obtain ⟨s, hs⟩ := exists_ofSettings (Capture.namedLoaded "left").settings .synthetic
    (by decide +kernel)
  have hvalid : ∀ d ∈ (Capture.namedLoaded "left").settings.cameras,
      isHeaderValue (Capture.namedLoaded "left").settings.template ∧
        isHeaderValue d.index.toText := by decide +kernel
  exact ⟨s, hs, (deliversCaptures_iff hs "now" []).2 fun d hd _ => hvalid d hd⟩

/-- A settings file with a template for the addresses of images, as the file writes it. -/
def previewFile (template : String) : String :=
  "[preview]\nurl_template = \"" ++ template ++ "\"\n"

/-- The disk with the settings file alone. -/
def previewDisk (template : String) : Settings.Disk :=
  ⟨[(["ferrocam.toml"], (previewFile template).toUTF8)], []⟩

/-- What is loaded from the disk, given the template that the file has. -/
def previewLoaded (template : String) : Settings.Loaded where
  settings := {
    host := "0.0.0.0", port := 8080
    cors := ⟨["http://localhost:5173", "http://localhost:8080"], ["GET", "POST", "OPTIONS"],
      ["Content-Type"]⟩
    template := template, policy := .permissive, cameras := DemoFleet.cameras, devMode := false
    configPath := some "ferrocam.toml", envFileLoaded := false, cameraSource := .demo }
  warnings := [.demoFleet]

/-- A control character in the template leaves the answer without the location of an image that
resolves, and one in the name of a camera makes its raw capture fail. -/
theorem not_deliversCaptures_of_control :
    (Settings.load (previewDisk "http://cam/\\u0001\x7bwidth\x7dx\x7bheight\x7d") ⟨none, none⟩ [] =
        .ok (previewLoaded "http://cam/\x01\x7bwidth\x7dx\x7bheight\x7d") ∧ ∃ s,
      ofSettings (previewLoaded "http://cam/\x01\x7bwidth\x7dx\x7bheight\x7d").settings
          .synthetic = .ok s ∧
      (∃ still, Capture.still s.registry (some "0") = .ok still) ∧
      (s.respond "now" (sourceRequest .captureImage "0")).1.status = 302 ∧
      Headers.get? (s.respond "now" (sourceRequest .captureImage "0")).1.headers "location" =
        none) ∧
    Settings.load (Capture.namedDisk "a\\u0001b") ⟨none, none⟩ [] =
        .ok (Capture.namedLoaded "a\x01b") ∧ ∃ s,
      ofSettings (Capture.namedLoaded "a\x01b").settings .synthetic = .ok s ∧
      (∃ capture, Capture.raw s.registry s.raw (some "a\x01b") = .ok capture) ∧
      (s.respond "now" (sourceRequest .captureBinary "a\x01b")).1.status = 500 := by
  refine ⟨⟨(Settings.load_settingsFile _).trans (by decide +kernel), ?_⟩,
    (Settings.load_settingsFile _).trans (by decide +kernel), ?_⟩
  · obtain ⟨s, hs⟩ := exists_ofSettings
      (previewLoaded "http://cam/\x01\x7bwidth\x7dx\x7bheight\x7d").settings .synthetic
      (by decide +kernel)
    obtain ⟨-, -, hregistry⟩ := ofSettings_ok hs
    have hlisted : Ident.number 0 ∈ DemoFleet.cameras.map (·.index) := by decide
    obtain ⟨d, hd, hindex⟩ := List.mem_map.1 hlisted
    have hnames : Capture.Names (some "0") d.index := ⟨_, rfl, by decide, hindex ▸ by decide⟩
    obtain ⟨c, hfind, hdev⟩ := Capture.exists_find (Settings.holds_registry hregistry) hd hnames
    have hstill := Capture.still_of_find hfind
    refine ⟨s, hs, ⟨_, hstill⟩, unlocated_of_invalid (asks_sourceRequest _ _) hstill ?_⟩
    have hnumber : isHeaderValue c.index.toText := by
      rw [hdev.index, hindex]
      decide +kernel
    rw [Settings.preview_registry hregistry, Preview.isHeaderValue_render hnumber]
    decide +kernel
  · obtain ⟨s, hs⟩ := exists_ofSettings (Capture.namedLoaded "a\x01b").settings .synthetic
      (by decide +kernel)
    obtain ⟨-, hraw, hregistry⟩ := ofSettings_ok hs
    have hnames : Capture.Names (some "a\x01b") (.name "a\x01b") := ⟨_, rfl, by decide, by decide⟩
    obtain ⟨c, hfind, -⟩ :=
      Capture.exists_find (Settings.holds_registry hregistry) List.mem_cons_self hnames
    have hcapture := raw_of_synthetic hraw hfind
    refine ⟨s, hs, ⟨_, hcapture⟩, failing_of_invalid (asks_sourceRequest _ _) hcapture ?_⟩
    rw [Capture.isHeaderValue_disposition]
    decide +kernel

end Service

end CameraFleet
