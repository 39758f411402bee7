import CameraFleet.Proofs.Capture.Outcome
import CameraFleet.Proofs.Client.Agreement
import CameraFleet.Proofs.Client.Listing

/-!
# Captures by the index of a camera

A source is read without the blanks around it. So the text of an identifier is read back as a
source just when it is tight (`Capture.names_toText_iff`): it has a character, and no blank
at either end. A camera with a canonical index of such a text is captured by that text, and a body
that has the text for an index changes the same camera (`Capture.captured_by_index`).
-/

namespace CameraFleet

namespace Text

/-- A text has a character, and neither the first nor the last is a blank. -/
structure IsTight (s : String) : Prop where
  ne_nil : s.toList ≠ []
  head : ∀ c, s.toList.head? = some c → isBlank c = false
  last : ∀ c, s.toList.getLast? = some c → isBlank c = false

variable {p : Char → Bool} {cs : List Char}

theorem dropWhile_eq_self_iff_head :
    cs.dropWhile p = cs ↔ ∀ c, cs.head? = some c → p c = false := by
  cases cs with
  | nil => simp
  | cons c cs =>
    rw [List.dropWhile_cons]
    split_ifs with hp
    · simp only [List.head?_cons, Option.some.injEq, forall_eq', hp, Bool.true_eq_false, iff_false]
      exact fun h => absurd (congrArg List.length h)
        (by have := (List.dropWhile_suffix p (l := cs)).length_le; simp; omega)
    · simpa using hp

/-- Stripping leaves a text alone only if both of its ends are kept. -/
theorem stripBy_eq_self_iff : stripBy p cs = cs ↔
    (∀ c, cs.head? = some c → p c = false) ∧ ∀ c, cs.getLast? = some c → p c = false := by
  refine ⟨fun h => ?_, fun ⟨hh, hl⟩ => stripBy_eq_self hh hl⟩
  have hlength := congrArg List.length h
  rw [stripBy, List.length_reverse] at hlength
  have hhead : (cs.dropWhile p).length ≤ cs.length := (List.dropWhile_suffix p).length_le
  have hlast : ((cs.dropWhile p).reverse.dropWhile p).length ≤ (cs.dropWhile p).length := by
    simpa using (List.dropWhile_suffix p (l := (cs.dropWhile p).reverse)).length_le
  have hd : cs.dropWhile p = cs := (List.dropWhile_suffix p).eq_of_length (by omega)
  rw [stripBy, hd] at h
  rw [List.reverse_eq_iff, dropWhile_eq_self_iff_head, List.head?_reverse] at h
  exact ⟨dropWhile_eq_self_iff_head.1 hd, h⟩

theorem isTight_iff {s : String} : IsTight s ↔ isBlankText s = false ∧ trim s = s := by
  have htrim : trim s = s ↔ stripBy isBlank s.toList = s.toList := by
    rw [trim, ← String.toList_inj, String.toList_ofList]
  rw [htrim, stripBy_eq_self_iff]
  constructor
  · rintro ⟨hne, hh, hl⟩
    refine ⟨?_, hh, hl⟩
    obtain ⟨c, hc⟩ := Option.isSome_iff_exists.1 (List.isSome_head?.2 hne)
    rw [isBlankText, List.all_eq_false]
    exact ⟨c, List.mem_of_mem_head? hc, by simp [hh c hc]⟩
  · rintro ⟨hblank, hh, hl⟩
    refine ⟨fun hnil => ?_, hh, hl⟩
    simp [isBlankText, hnil] at hblank

theorem isBlank_of_isDigit {c : Char} (h : c.isDigit = true) : isBlank c = false := by
  have hrange : 48 ≤ c.toNat ∧ c.toNat ≤ 57 := by
    simpa [Char.isDigit, UInt32.le_iff_toNat_le] using h
  simp only [isBlank, Bool.or_eq_false_iff, Bool.and_eq_false_iff, decide_eq_false_iff_not,
    beq_eq_false_iff_ne]
  omega

theorem isTight_natural (n : Nat) : IsTight (Natural.toText n) := by
  have hblank : ∀ c ∈ Natural.digits n, isBlank c = false := fun c hc =>
    isBlank_of_isDigit (Natural.isDigit_of_mem_digits hc)
  refine ⟨?_, fun c hc => ?_, fun c hc => ?_⟩
  · rw [Natural.toText, String.toList_ofList]
    exact Natural.digits_ne_nil n
  · rw [Natural.toText, String.toList_ofList] at hc
    exact hblank c (List.mem_of_mem_head? hc)
  · rw [Natural.toText, String.toList_ofList] at hc
    exact hblank c (List.mem_of_mem_getLast? hc)

end Text

namespace SetRequest

/-- A body is a document that gives a text for the index. -/
def HasIndexText (body : ByteArray) (text : String) : Prop :=
  ∃ d fields, Json.parseBytes? body = some d ∧ d.record? fieldNames = some fields ∧
    fields.lookup "index" = some (.text text)

theorem HasIndexText.index_eq {body : ByteArray} {text : String} {q : SetRequest}
    (h : HasIndexText body text) (hq : ofBody? body = some q) : q.index = Ident.ofText text := by
  obtain ⟨d, fields, hd, hfields, hindex⟩ := h
  have hrequired : fields.required? "index" Ident.ofDatum? = some (Ident.ofText text) := by
    rw [Datum.Record.required?, hindex]
    rfl
  rw [ofBody?, hd, Option.bind_some, ofDatum?, hfields] at hq
  simp only [Option.bind_eq_bind, Option.bind_some, hrequired, Option.bind_eq_some_iff,
    Option.pure_def, Option.some.injEq] at hq
  obtain ⟨format, -, quality, -, rfl⟩ := hq
  rfl

end SetRequest

namespace Capture

variable {i : Ident} {c : Camera}

/-- The text of an identifier names it as a source just when it is tight. -/
theorem names_toText_iff (hi : i.IsCanonical) :
    Names (some i.toText) i ↔ Text.IsTight i.toText := by
  rw [Text.isTight_iff]
  constructor
  · rintro ⟨s, hs, hblank, hread⟩
    obtain rfl := Option.some.inj hs
    exact ⟨hblank, by simpa using congrArg Ident.toText hread⟩
  · rintro ⟨hblank, htrim⟩
    exact ⟨_, rfl, hblank, by rw [htrim, hi]⟩

/-- After any requests to a service, a camera that it lists is captured by the text of its index,
if that is canonical and a number or a tight name: the text is read as the index, a still image is
the one that the listing shows, and raw data are this camera's. A body with the text for an index
changes this camera too. -/
theorem captured_by_index {settings : Settings} {data : RawSource} {s : Service}
    (hs : Service.ofSettings settings data = .ok s) (time : String) (requests : List Http.Request)
    (hc : c ∈ (s.respondAll time requests).2.registry.toList) (hcanonical : c.index.IsCanonical)
    (htight : ∀ text, c.index = .name text → Text.IsTight text) :
    let r := (s.respondAll time requests).2.registry
    let text := c.index.toText
    parseSource (some text) = .ok c.index ∧
      still r (some text) = .ok ⟨c.index, c.src⟩ ∧
      raw r data (some text) = (data c).map
        (fun bytes => ⟨c.index, bytes, filename c.index, c.frameRate⟩) ∧
      ∀ body q p, SetRequest.HasIndexText body text → body.size ≤ Service.bodyLimit →
        SetRequest.ofBody? body = some q → q.patch = .ok p →
        Service.setConfig r body =
          (Service.reply (r.apply c.index p).1, (r.apply c.index p).2) := by
  intro r text
  have hholds : r.Holds settings.cameras := Service.holds_respondAll hs time requests
  obtain ⟨hget, hsettled⟩ := hholds.get?_of_mem hc
  have htext : Text.IsTight text := by
    change Text.IsTight c.index.toText
    rcases hindex : c.index with n | name
    · exact Text.isTight_natural n.toNat
    · exact htight name hindex
  have hnames : Names (some text) c.index := (names_toText_iff hcanonical).2 htext
  have hfind : find r (some text) = .ok (c.index, c) := find_of_known hnames hget
  refine ⟨parseSource_of_names hnames, ?_, raw_of_find hfind data,
    fun body q p hbody hsize hq hp => ?_⟩
  · rw [still_of_find hfind, hsettled.src]
  · rw [Service.setConfig_of_call hsize hq hp, hbody.index_eq hq, hcanonical]

theorem hasIndexText_setBody (name : String) (p : Patch) :
    SetRequest.HasIndexText (Client.setBody (.name name) p) name :=
  ⟨_, _, Json.parseBytes?_toUTF8_render (Client.written_ofPatch _ p),
    SetRequest.record?_toDatum _, rfl⟩

/-- A settings file with one camera, given its name. -/
def namedFile (name : String) : String :=
  "[[cameras]]\nindex = \"" ++ name ++
    "\"\ncurrentFrameRate = 30\ncurrentImageFormat = 1\ncurrentResolution = [4, 3]\n" ++
    "imageFormats = [\x7bid = 1, description = \"RGB\"\x7d]\n"

/-- The disk with the settings file alone. -/
def namedDisk (name : String) : Settings.Disk :=
  ⟨[(["ferrocam.toml"], (namedFile name).toUTF8)], []⟩

/-- What is loaded from the disk. -/
def namedLoaded (name : String) : Settings.Loaded where
  settings := {
    host := "0.0.0.0", port := 8080
    cors := ⟨["http://localhost:5173", "http://localhost:8080"], ["GET", "POST", "OPTIONS"],
      ["Content-Type"]⟩
    template := Preview.defaultTemplate, policy := .permissive
    cameras := [⟨.name name, none, "", .ofInt 30, .number 1, none, none, ⟨4, 3⟩,
      [⟨.number 1, "RGB", none, none⟩]⟩]
    devMode := false, configPath := some "ferrocam.toml", envFileLoaded := false
    cameraSource := .inline "ferrocam.toml" }
  warnings := []

/-- A service with the settings lists the camera. -/
theorem exists_named {name : String}
    (h : (namedLoaded name).settings.registry.toOption.isSome) : ∃ s,
      Service.ofSettings (namedLoaded name).settings .synthetic = .ok s ∧
      ∃ c ∈ s.registry.toList, c.index = .name name := by
  obtain ⟨s, hs⟩ := Service.exists_ofSettings _ .synthetic h
  obtain ⟨c, hc, hdev⟩ := (Service.holds_respondAll hs "now" []).exists_stored List.mem_cons_self
  exact ⟨s, hs, c, hc, hdev.index⟩

theorem captured_by_index_name : ∃ s,
    Service.ofSettings (namedLoaded "left").settings .synthetic = .ok s ∧
    ∃ c ∈ s.registry.toList, still s.registry (some "left") = .ok ⟨.name "left", c.src⟩ ∧
      Service.setConfig s.registry (Client.setBody (.name "left") ⟨none, some 50⟩) =
        (Service.reply (s.registry.apply (.name "left") ⟨none, some 50⟩).1,
          (s.registry.apply (.name "left") ⟨none, some 50⟩).2) := by
  obtain ⟨s, hs, c, hc, hindex⟩ := exists_named <|
    show (namedLoaded "left").settings.registry.toOption.isSome by decide +kernel
  have hcanonical : (Ident.name "left").IsCanonical := by decide
  have htight : Text.IsTight "left" := Text.isTight_iff.2 (by decide)
  obtain ⟨-, hstill, -, hset⟩ := captured_by_index hs "now" [] hc (hindex ▸ hcanonical)
    fun text htext => Ident.name.inj (hindex.symm.trans htext) ▸ htight
  rw [hindex] at hstill hset
  refine ⟨s, hs, c, hc, hstill, ?_⟩
  exact hset _ _ _ (hasIndexText_setBody _ _) (by decide +kernel)
    (Client.ofBody?_setBody hcanonical fun _ h => absurd h (by simp)) (Client.patch_ofPatch _ _)

/-- A name that begins with a blank is read without it as a source, and a blank one is none. -/
theorem not_captured_by_blank_index :
    (Settings.load (namedDisk " left") ⟨none, none⟩ [] = .ok (namedLoaded " left") ∧ ∃ s,
      Service.ofSettings (namedLoaded " left").settings .synthetic = .ok s ∧
      ∃ c ∈ s.registry.toList, c.index = .name " left" ∧ c.index.IsCanonical ∧
        parseSource (some c.index.toText) = .ok (.name "left")) ∧
    Settings.load (namedDisk " ") ⟨none, none⟩ [] = .ok (namedLoaded " ") ∧ ∃ s,
      Service.ofSettings (namedLoaded " ").settings .synthetic = .ok s ∧
      ∃ c ∈ s.registry.toList, c.index = .name " " ∧ c.index.IsCanonical ∧
        parseSource (some c.index.toText) = .error (.missingParameter sourceParameter) := by
  refine ⟨⟨(Settings.load_settingsFile _).trans (by decide +kernel), ?_⟩,
    (Settings.load_settingsFile _).trans (by decide +kernel), ?_⟩
  · obtain ⟨s, hs, c, hc, hindex⟩ := exists_named <|
      show (namedLoaded " left").settings.registry.toOption.isSome by decide +kernel
    refine ⟨s, hs, c, hc, hindex, ?_⟩
    rw [hindex]
    decide
  · obtain ⟨s, hs, c, hc, hindex⟩ := exists_named <|
      show (namedLoaded " ").settings.registry.toOption.isSome by decide +kernel
    refine ⟨s, hs, c, hc, hindex, ?_⟩
    rw [hindex]
    decide

end Capture

end CameraFleet
