import CameraFleet.Proofs.Client.Captures
import CameraFleet.Proofs.Client.Disposition

/-!
# The names of downloaded files

A service puts the name of a file between quotes as it is, and a client cuts the header at
semicolons without regard to quotes. So among the printable names without slashes exactly those
with a semicolon do not arrive (`Client.download_filename_iff`): what arrives then ends before it.
-/

namespace CameraFleet

namespace Text

variable {p : Char → Bool} {a b : Char} {cs : List Char}

theorem stripBy_cons (ha : p a = true) (cs : List Char) : stripBy p (a :: cs) = stripBy p cs := by
  rw [stripBy, stripBy, List.dropWhile_cons_of_pos ha]

theorem stripBy_between (ha : p a = true) (hb : p b = true) (hne : cs ≠ [])
    (hhead : ∀ c, cs.head? = some c → p c = false)
    (hlast : ∀ c, cs.getLast? = some c → p c = false) :
    stripBy p (a :: (cs ++ [b])) = cs := by
  have hbefore : ∀ c ∈ [a], p c = true := by simpa using ha
  have hafter : ∀ c ∈ [b], p c = true := by simpa using hb
  exact stripBy_append hbefore hafter hne hhead hlast

end Text

namespace Client

open Disposition (filename? parameter? lastComponent?)
open Settings (Path.IsEntry)

variable {name : String}

theorem Disposition.lastComponent?_of_isEntry (h : Path.IsEntry name) :
    lastComponent? name.toList = some name.toList := by
  have hne : name.toList ≠ [] := mt String.toList_eq_nil_iff.1 h.ne_empty
  have hhere : name.toList ≠ ['.'] := fun heq => h.ne_here (String.toList_inj.1 heq)
  have habove : name.toList ≠ ['.', '.'] := fun heq => h.ne_above (String.toList_inj.1 heq)
  rw [lastComponent?, components, Text.splitOn_of_not_mem h.single]
  simp [hne, hhere, habove, Option.filter_some]

theorem Disposition.toList_disposition (name : String) : (Service.disposition name).toList =
    "attachment".toList ++ ';' :: ' ' :: (parameter ++ '\x22' :: (name.toList ++ ['\x22'])) := by
  have hfront : "attachment; filename=\"".toList =
      "attachment".toList ++ ';' :: ' ' :: (parameter ++ ['\x22']) := by decide
  have hquote : "\"".toList = ['\x22'] := rfl
  unfold Service.disposition
  simp only [String.toList_append, hfront, hquote, List.append_assoc, List.cons_append,
    List.nil_append]

/-- Without semicolons the value of the parameter is all that stands behind its name. -/
theorem Disposition.parameter?_disposition (hsemicolon : ';' ∉ name.toList) :
    parameter? (Service.disposition name).toList =
      some ('\x22' :: (name.toList ++ ['\x22'])) := by
  have hplain : ';' ∉ parameter ∧ ';' ∉ "attachment".toList := by decide
  have hother : parameter.isPrefixOf (Text.stripBy Text.isBlank "attachment".toList) = false := by
    decide
  have hprefix : ∀ cs, parameter.isPrefixOf (parameter ++ cs) = true := by simp
  have hquoted : ';' ∉ ' ' :: (parameter ++ '\x22' :: (name.toList ++ ['\x22'])) := by
    simp [hplain.1, hsemicolon]
  have hpart : Text.stripBy Text.isBlank (' ' :: (parameter ++ '\x22' ::
      (name.toList ++ ['\x22']))) = parameter ++ '\x22' :: (name.toList ++ ['\x22']) := by
    obtain ⟨rest, hfirst⟩ : ∃ rest, parameter = 'f' :: rest := ⟨_, rfl⟩
    rw [Text.stripBy_cons (by decide)]
    refine Text.stripBy_eq_self (fun c hc => ?_) fun c hc => ?_
    · rw [hfirst, List.cons_append, List.head?_cons, Option.some.injEq] at hc
      subst hc
      decide
    · rw [List.getLast?_append_of_ne_nil _ (List.cons_ne_nil _ _), ← List.cons_append,
        List.getLast?_concat, Option.some.injEq] at hc
      subst hc
      decide
  rw [parameter?, toList_disposition, Text.splitOn_append, Text.splitOn_of_not_mem hplain.2,
    Text.splitOn_of_not_mem hquoted, List.singleton_append, List.map_cons, List.map_singleton,
    hpart]
  simp only [List.findSome?_cons, hother, Bool.false_eq_true, if_false, hprefix, if_true,
    List.drop_left]

/-- A name between quotes is read as it stands there. -/
theorem Disposition.filename?_disposition (hname : Path.IsEntry name) (hback : '\\' ∉ name.toList)
    (hsemicolon : ';' ∉ name.toList) (hhead : name.toList.head? ≠ some '\x22')
    (hlast : name.toList.getLast? ≠ some '\x22') :
    filename? (Service.disposition name) = some name := by
  have hne : name.toList ≠ [] := mt String.toList_eq_nil_iff.1 hname.ne_empty
  have hquoted : Text.stripBy (· = '\x22') ('\x22' :: (name.toList ++ ['\x22'])) = name.toList := by
    refine Text.stripBy_between (by decide) (by decide) hne (fun c hc => ?_) fun c hc => ?_
    · exact decide_eq_false fun heq => hhead (heq ▸ hc)
    · exact decide_eq_false fun heq => hlast (heq ▸ hc)
  have hkept : name.toList.map (fun c => if c = '\\' then '/' else c) = name.toList := by
    refine (List.map_congr_left fun c hc => if_neg ?_).trans (List.map_id' _)
    rintro rfl
    exact hback hc
  rw [filename?, parameter?_disposition hsemicolon, Option.bind_some]
  simp only [hquoted, hkept, lastComponent?_of_isEntry hname, Option.map_some,
    String.ofList_toList]

/-! ## From a service to a client -/

/-- The answer that comes back over the link when the client asks for the raw data of a camera. -/
def Receives {σ : Type} (c : Client) (link : Link σ) (index : Ident) (s : σ) (a : Http.Response)
    (s' : σ) : Prop :=
  ∃ request, c.captureRequest? .captureBinary index = some request ∧ link s request = (some a, s')

theorem Receives.download_eq {σ : Type} {c : Client} {link : Link σ} {index : Ident} {s s' : σ}
    {a : Http.Response} (h : c.Receives link index s a s') :
    c.download link index s = (readDownload a, s') := by
  obtain ⟨request, hrequest, hlink⟩ := h
  simp only [download, exchange, hrequest, hlink]

theorem receives_service {c : Client} (hc : c.IsRooted) (index : Ident) (s : Service)
    (now : String) : c.Receives (Service.link now) index s
      (s.respond now (Service.sourceRequest .captureBinary index.toText)).1 s := by
  have hcapture : Capture.IsCapture (Service.sourceRequest .captureBinary index.toText) := by
    obtain ⟨-, query, htarget, -⟩ := Service.asks_sourceRequest .captureBinary index.toText
    exact Or.inr (by rw [htarget])
  have hlink : ∀ request, Service.link now s request =
      (some (s.respond now request).1, (s.respond now request).2) := fun _ => rfl
  exact ⟨_, captureRequest?_eq hc _ _, by rw [hlink, hcapture.respond_snd]⟩

end Client

namespace Capture

open Settings (Path.IsEntry)

variable {index : Ident}

theorem toList_filename (index : Ident) : (filename index).toList =
    'c' :: ("amera_".toList ++ index.toText.toList ++ "_raw.bi".toList ++ ['n']) := by
  have hfront : "camera_".toList = 'c' :: "amera_".toList := by decide
  have hback : "_raw.bin".toList = "_raw.bi".toList ++ ['n'] := by decide
  rw [filename, String.toList_append, String.toList_append, hfront, hback]
  simp only [List.cons_append, List.append_assoc]

theorem mem_filename_iff {c : Char} (hc : c ∉ "camera__raw.bin".toList) :
    c ∈ (filename index).toList ↔ c ∈ index.toText.toList := by
  have hparts : "camera__raw.bin".toList = "camera_".toList ++ "_raw.bin".toList := by decide
  rw [hparts, List.mem_append, not_or] at hc
  rw [filename, String.toList_append, String.toList_append, List.mem_append, List.mem_append,
    or_iff_left hc.2, or_iff_right hc.1]

/-- A file with raw data is an entry of a directory if the text of the index has no slash. -/
theorem isEntry_filename_iff :
    Path.IsEntry (filename index) ↔ '/' ∉ index.toText.toList := by
  have hne : ∀ s : String, s.toList.head? ≠ some 'c' → filename index ≠ s := by
    rintro s hs rfl
    exact hs (by rw [toList_filename, List.head?_cons])
  rw [Settings.Path.isEntry_iff, mem_filename_iff (by decide)]
  exact ⟨fun ⟨_, _, _, h⟩ => h,
    fun h => ⟨hne _ (by decide), hne _ (by decide), hne _ (by decide), h⟩⟩

theorem isPrintable_disposition (h : ∀ c ∈ index.toText.toList, ' ' ≤ c ∧ c < '\x7f') :
    Text.IsPrintable (Service.disposition (filename index)) := by
  have hfront : Text.IsPrintable "attachment; filename=\"camera_" := by decide
  have hback : Text.IsPrintable "_raw.bin\"" := by decide
  have hne : "attachment; filename=\"camera_".toList ≠ [] ∧ "_raw.bin\"".toList ≠ [] := by
    decide
  rw [Service.disposition_filename]
  refine ⟨?_, ?_, ?_⟩
  · simp only [String.toList_append, List.forall_mem_append]
    exact ⟨⟨hfront.chars, h⟩, hback.chars⟩
  · rw [String.append_assoc, String.toList_append, List.head?_append_of_ne_nil _ hne.1]
    exact hfront.edges.1
  · rw [String.toList_append, List.getLast?_append_of_ne_nil _ hne.2]
    exact hback.edges.2

end Capture

namespace Client

open Disposition (filename?)

/-- What a client makes of the answer with raw data: the bytes, and the name that the header
gives. -/
theorem readDownload_of_downloads {a : Http.Response} {capture : RawCapture}
    (h : Service.Downloads a capture)
    (hprintable : ∀ c ∈ capture.index.toText.toList, ' ' ≤ c ∧ c < '\x7f') :
    ∃ d, readDownload a = .ok d ∧ d.bytes = capture.bytes ∧
      d.filename = filename? (Service.disposition (Capture.filename capture.index)) := by
  have hheader := h.filename
  rw [← Service.disposition_filename] at hheader
  refine ⟨_, if_pos ?_, h.body, ?_⟩
  · simp [isSuccess, h.status]
  · simp only [header?_of_isPrintable hheader (Capture.isPrintable_disposition hprintable),
      Option.bind_some]

/-- What a client downloads where it receives the answer of a service with raw data. -/
theorem exists_download {t : Service} {time : String} {q : Http.Request} {source : Option String}
    {capture : RawCapture} (hasks : Service.Asks q .captureBinary source)
    (hcapture : Capture.raw t.registry t.raw source = .ok capture)
    (hprintable : ∀ c ∈ capture.index.toText.toList, ' ' ≤ c ∧ c < '\x7f') {σ : Type} {c : Client}
    {link : Link σ} {asked : Ident} {s s' : σ}
    (hreceives : c.Receives link asked s (t.respond time q).1 s') :
    ∃ d, c.download link asked s = (.ok d, s') ∧ d.bytes = capture.bytes ∧
      d.filename = filename? (Service.disposition (Capture.filename capture.index)) := by
  have hfilename : capture.filename = Capture.filename capture.index := by
    obtain ⟨i, camera, bytes, -, -, rfl⟩ := Capture.find_of_raw hcapture
    rfl
  have hvalid : Http.isHeaderValue (Service.disposition capture.filename) := by
    rw [hfilename]
    exact (Capture.isPrintable_disposition hprintable).isHeaderValue
  obtain ⟨d, hread, hdownload⟩ :=
    readDownload_of_downloads (Service.downloads_of_valid hasks hcapture hvalid) hprintable
  exact ⟨d, by rw [hreceives.download_eq, hread], hdownload⟩

theorem filename?_disposition_iff {index : Ident} (hslash : '/' ∉ index.toText.toList)
    (hback : '\\' ∉ index.toText.toList) :
    filename? (Service.disposition (Capture.filename index)) = some (Capture.filename index) ↔
      ';' ∉ index.toText.toList := by
  have hown : '\\' ∉ "camera__raw.bin".toList ∧ ';' ∉ "camera__raw.bin".toList := by decide
  have hsemicolon : ';' ∈ (Capture.filename index).toList ↔ ';' ∈ index.toText.toList :=
    Capture.mem_filename_iff hown.2
  refine ⟨fun h => mt hsemicolon.2 (Disposition.not_mem_of_filename? h).1, fun h => ?_⟩
  refine Disposition.filename?_disposition (Capture.isEntry_filename_iff.2 hslash)
    (mt (Capture.mem_filename_iff hown.1).1 hback) (mt hsemicolon.1 h) ?_ ?_
  · simp [Capture.toList_filename]
  · rw [Capture.toList_filename, ← List.cons_append, List.getLast?_concat]
    exact fun heq => absurd (Option.some.inj heq) (by decide)

/-- If the text of an index is printable and has no slashes, the name of its file is read from the
header just when the text has no semicolon, and so it is for a client that receives the answer of
a service with its raw data. -/
theorem download_filename_iff {index : Ident}
    (hprintable : ∀ c ∈ index.toText.toList, ' ' ≤ c ∧ c < '\x7f')
    (hslash : '/' ∉ index.toText.toList) (hback : '\\' ∉ index.toText.toList) :
    (filename? (Service.disposition (Capture.filename index)) = some (Capture.filename index) ↔
      ';' ∉ index.toText.toList) ∧
    ∀ (t : Service) (time : String) (q : Http.Request) (source : Option String)
      (capture : RawCapture), Service.Asks q .captureBinary source →
      Capture.raw t.registry t.raw source = .ok capture → capture.index = index →
      ∀ {σ : Type} (c : Client) (link : Link σ) (asked : Ident) (s s' : σ),
        c.Receives link asked s (t.respond time q).1 s' →
        ∃ d, c.download link asked s = (.ok d, s') ∧ d.bytes = capture.bytes ∧
          (d.filename = some (Capture.filename index) ↔ ';' ∉ index.toText.toList) := by
  have hheader := filename?_disposition_iff hslash hback
  refine ⟨hheader, ?_⟩
  rintro t time q source capture hasks hcapture rfl σ c link asked s s' hreceives
  obtain ⟨d, hd, hbytes, hname⟩ := exists_download hasks hcapture hprintable hreceives
  exact ⟨d, hd, hbytes, by rw [hname, hheader]⟩

/-- A client on the host of a service. -/
def localClient : Client :=
  ⟨⟨"http://" ++ String.ofList ("localhost".toList ++ ':' ::
    Natural.digits (8080 : UInt16).toNat)⟩⟩

theorem receives_localClient {name : String} (s : Service) :
    localClient.Receives (Service.link "now") (.name name) s
      (s.respond "now" (Service.sourceRequest .captureBinary name)).1 s :=
  receives_service (isRooted_localhost 8080) _ s "now"

/-- Where a camera with a name is the fleet, its raw data are there for the name. -/
theorem exists_raw_named (name : String)
    (h : (Capture.namedLoaded name).settings.registry.toOption.isSome)
    (hcanonical : (Ident.name name).IsCanonical) (htight : Text.IsTight name) : ∃ s,
      Service.ofSettings (Capture.namedLoaded name).settings .synthetic = .ok s ∧
      ∃ capture, Capture.raw s.registry s.raw (some name) = .ok capture ∧
        capture.index = .name name := by
  obtain ⟨s, hs⟩ := Service.exists_ofSettings _ .synthetic h
  obtain ⟨-, hraw, -⟩ := Service.ofSettings_ok hs
  obtain ⟨c, hfind, -⟩ := Capture.exists_find (Service.holds_respondAll hs "now" [])
    List.mem_cons_self ((Capture.names_toText_iff hcanonical).2 htight)
  exact ⟨s, hs, _, Service.raw_of_synthetic hraw hfind, rfl⟩

theorem download_filename_iff_gate : ∃ s,
    Service.ofSettings (Capture.namedLoaded "north \"gate, 2").settings .synthetic = .ok s ∧
    ∃ d, localClient.download (Service.link "now") (.name "north \"gate, 2") s = (.ok d, s) ∧
      d.filename = some "camera_north \"gate, 2_raw.bin" := by
  obtain ⟨s, hs, capture, hcapture, hindex⟩ := exists_raw_named "north \"gate, 2"
    (by decide) (by decide) (Text.isTight_iff.2 (by decide))
  have hprintable : Text.IsPrintable (Ident.name "north \"gate, 2").toText := by decide
  have hdownload := download_filename_iff hprintable.chars (by decide) (by decide)
  obtain ⟨d, hd, -, hname⟩ := hdownload.2 s "now" _ _ capture
    (Service.asks_sourceRequest .captureBinary _) hcapture hindex _ _ _ _ _ (receives_localClient s)
  have hfile : Capture.filename (.name "north \"gate, 2") = "camera_north \"gate, 2_raw.bin" := by
    decide
  exact ⟨s, hs, d, hd, hfile ▸ hname.2 (by decide)⟩

/-- A name with a semicolon is cut there. -/
theorem download_filename_semicolon :
    filename? "attachment; filename=\"camera_a;b_raw.bin\"" = some "camera_a" ∧ ∃ s,
    Service.ofSettings (Capture.namedLoaded "a;b").settings .synthetic = .ok s ∧
    ∃ d, localClient.download (Service.link "now") (.name "a;b") s = (.ok d, s) ∧
      d.filename = some "camera_a" := by
  obtain ⟨s, hs, capture, hcapture, hindex⟩ := exists_raw_named "a;b"
    (by decide) (by decide) (Text.isTight_iff.2 (by decide))
  have hprintable : Text.IsPrintable "a;b" := by decide
  obtain ⟨d, hd, -, hname⟩ := exists_download (Service.asks_sourceRequest .captureBinary _)
    hcapture (hindex ▸ hprintable.chars) (receives_localClient s)
  have hcut : filename? "attachment; filename=\"camera_a;b_raw.bin\"" = some "camera_a" := by
    decide
  refine ⟨hcut, s, hs, d, hd, ?_⟩
  have hfile : Service.disposition (Capture.filename (.name "a;b")) =
      "attachment; filename=\"camera_a;b_raw.bin\"" := by decide
  rw [hname, hindex, hfile, hcut]

end Client

end CameraFleet
