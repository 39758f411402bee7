import CameraFleet.Proofs.Client.Refusals
import CameraFleet.Proofs.Service.Delivery

/-!
# The location of an image through a client

A client that asks for an image of a camera is sent to the location that the listing shows for it,
or told that there is no such camera (`Client.imageLocation_eq`). The text of the index goes into
the query of the request and comes out of it whatever its characters are, and the location comes
back unharmed since nothing in it has to be left out of a header.
-/

namespace CameraFleet

namespace Text

/-- A text of printable ASCII characters, without a space at its beginning and its end. -/
structure IsPrintable (s : String) : Prop where
  chars : ∀ c ∈ s.toList, ' ' ≤ c ∧ c < '\x7f'
  edges : HasEdges (· ≠ ' ') s.toList

variable {s : String} {c : Char}

theorem isPrintable_iff : IsPrintable s ↔ s.toList.all (fun c => ' ' ≤ c ∧ c < '\x7f') ∧
    s.toList.head? ≠ some ' ' ∧ s.toList.getLast? ≠ some ' ' := by
  have hedges : ∀ o : Option Char, (∀ c ∈ o, c ≠ ' ') ↔ o ≠ some ' ' := by
    intro o
    cases o <;> simp
  rw [← hedges, ← hedges, List.all_eq_true]
  simp only [decide_eq_true_eq]
  exact ⟨fun ⟨hchars, hends⟩ => ⟨hchars, hends⟩, fun ⟨hchars, hends⟩ => ⟨hchars, hends⟩⟩

instance (s : String) : Decidable (IsPrintable s) :=
  decidable_of_iff' _ isPrintable_iff

theorem isBlank_of_printable (h : ' ' ≤ c ∧ c < '\x7f') (hspace : c ≠ ' ') : isBlank c = false := by
  have hle : 32 ≤ c.toNat := h.1
  have hlt : c.toNat < 127 := h.2
  have hne : c.toNat ≠ 32 := fun heq => hspace (Char.toNat_inj.1 heq)
  simp only [isBlank, Bool.or_eq_false_iff, Bool.and_eq_false_iff, decide_eq_false_iff_not,
    beq_eq_false_iff_ne]
  omega

theorem IsPrintable.isTight (h : IsPrintable s) (hne : s ≠ "") : IsTight s where
  ne_nil := mt String.toList_eq_nil_iff.1 hne
  head c hc := isBlank_of_printable (h.chars c (List.mem_of_mem_head? hc)) (h.edges.1 c hc)
  last c hc := isBlank_of_printable (h.chars c (List.mem_of_mem_getLast? hc)) (h.edges.2 c hc)

theorem IsPrintable.isHeaderValue (h : IsPrintable s) : Http.isHeaderValue s := by
  refine Http.isHeaderValue_iff.2 fun c hc => ?_
  obtain ⟨hle, hlt⟩ := h.chars c hc
  exact Or.inl ⟨hle, fun heq => absurd (heq ▸ hlt) (by decide)⟩

end Text

theorem Preview.isPrintable_render {p : Preview} {index : Ident}
    (hp : Text.IsPrintable p.template) (hindex : Text.IsPrintable index.toText)
    (hne : index.toText ≠ "") (r : Resolution) : Text.IsPrintable (p.render index r) := by
  have hdigit : ∀ c : Char, c.isDigit → (' ' ≤ c ∧ c < '\x7f') ∧ c ≠ ' ' := fun c hc =>
    Natural.of_isDigit hc (by decide)
  have hslots : Preview.OfSlots fun c => ' ' ≤ c ∧ c < '\x7f' := by
    have hplaceholder : ∀ slot : Slot,
        slot.placeholder.all (fun c => decide (' ' ≤ c ∧ c < '\x7f')) = true := by
      intro slot
      cases slot <;> rfl
    exact fun slot c hc => of_decide_eq_true (List.all_eq_true.1 (hplaceholder slot) c hc)
  have hnil : index.toText.toList ≠ [] := mt String.toList_eq_nil_iff.1 hne
  exact ⟨(forall_mem_render hslots (fun c hc => (hdigit c hc).1) hindex.chars r).2 hp.chars,
    hasEdges_render (fun c hc => (hdigit c hc).2) hnil hindex.edges hp.edges r⟩

namespace Client

open Service (sourceRequest)

theorem path_of_target {u : Url} {path : String} (h : target u = path)
    (hpath : '?' ∉ path.toList) : u.path = path ∧ u.query = none := by
  rcases hquery : u.query with _ | query
  · simpa [target, hquery] using h
  · refine absurd ?_ hpath
    simp [← h, target, hquery]

variable {c : Client}

/-- A rooted client asks for a capture of a camera with the text of its index for the source. -/
theorem captureRequest?_eq (hc : c.IsRooted) (route : Route) (index : Ident) :
    c.captureRequest? route index = some (sourceRequest route index.toText) := by
  have hroot := hc route
  have hpath : '?' ∉ route.path.toList := by cases route <;> decide
  unfold target? at hroot
  unfold captureRequest? target?
  rcases hurl : Url.ofText (c.base.join route.path) with e | url
  · simp [hurl] at hroot
  · simp only [hurl] at hroot ⊢
    by_cases hscheme : url.scheme = "http" ∨ url.scheme = "https"
    · rw [if_pos hscheme, Option.some.injEq] at hroot
      obtain ⟨hurlpath, hquery⟩ := path_of_target hroot hpath
      simp [if_pos hscheme, target, addPair, hurlpath, hquery, sourceRequest, Http.Form.pairText,
        String.append_assoc]
    · simp [if_neg hscheme] at hroot

variable {r : Http.Response}

/-- A printable value of a header is read as it is. -/
theorem header?_of_isPrintable {name value : String}
    (h : Http.Headers.get? r.headers name = some value) (hvalue : Text.IsPrintable value) :
    header? r name = some value := by
  have hreadable : Http.isReadableValue value = true := by
    rw [Http.isReadableValue, List.all_eq_true]
    intro c hc
    simp [hvalue.chars c hc]
  have hends : ∀ c, c ≠ ' ' → ' ' ≤ c ∧ c < '\x7f' → (c = ' ' || c = '\t') = false := by
    intro c hspace hc
    have htab : c ≠ '\t' := by
      rintro rfl
      exact absurd hc.1 (by decide)
    simp [hspace, htab]
  have hstrip : Text.stripBy (fun c => c = ' ' || c = '\t') value.toList = value.toList :=
    Text.stripBy_eq_self
      (fun c hc => hends c (hvalue.edges.1 c hc) (hvalue.chars c (List.mem_of_mem_head? hc)))
      (fun c hc => hends c (hvalue.edges.2 c hc) (hvalue.chars c (List.mem_of_mem_getLast? hc)))
  simp [header?, h, hstrip, Option.filter_some, hreadable]

theorem readLocation_of_refersTo {location : String} (h : Service.RefersTo r location)
    (hlocation : Text.IsPrintable location) : readLocation r = .ok location := by
  have hheader := header?_of_isPrintable h.location hlocation
  simp [readLocation, isRedirection, h.status, hheader]

/-- A text that tells of an unknown camera is read as that. -/
theorem readLocation_notFound (hstatus : r.status = 404)
    (hbody : r.body = Refusal.notFound.plain.body) :
    readLocation r = .error (.notFound "Camera not found") := by
  have hreason : Error.reason r.body = "Camera not found" := by
    rw [hbody]
    exact reason_plain (Refusal.isForeign_ofFailure (.notFound default))
  simp [readLocation, isRedirection, Error.ofResponse, hstatus, hreason]

theorem imageLocation_link (hc : c.IsRooted) (i : Ident) (s : Service) (now : String) :
    c.imageLocation (Service.link now) i s =
      (readLocation (s.respond now (sourceRequest .captureImage i.toText)).1, s) := by
  have hcapture : Capture.IsCapture (sourceRequest .captureImage i.toText) := by
    obtain ⟨-, query, htarget, -⟩ := Service.asks_sourceRequest .captureImage i.toText
    exact Or.inl (by rw [htarget])
  rw [imageLocation, captureRequest?_eq hc, exchange_link, hcapture.respond_snd]

variable {seeds : List Camera} {options : Registry.Options} {r₀ : Registry} {s : Service}

/-- Whatever patches a registry has seen, a client that asks for an image of a camera is given the
location that the listing shows for it, or told that there is no such camera, as long as the
template and the index are printable. -/
theorem imageLocation_eq (h : Registry.ofCameras seeds options = .ok r₀)
    (calls : List (Ident × Patch)) (hs : s.registry = r₀.run calls)
    (htemplate : Text.IsPrintable options.preview.template) (hc : c.IsRooted) {i : Ident}
    (hi : i.IsCanonical) (hne : i.toText ≠ "") (hindex : Text.IsPrintable i.toText)
    (now : String) :
    let located := c.imageLocation (Service.link now) i s
    (∀ d ∈ s.registry.toList, d.index = i → located = (.ok d.src, s)) ∧
      (i ∉ s.registry.toList.map (·.index) →
        located = (.error (.notFound "Camera not found"), s)) := by
  intro located
  have hholds : s.registry.Holds seeds := hs ▸ (Registry.holds_ofCameras h).1.run calls
  have hpreview : s.registry.options.preview = options.preview := by
    rw [hs, Registry.run_options, (Registry.holds_ofCameras h).2]
  have hnames : Capture.Names (some i.toText) i :=
    (Capture.names_toText_iff hi).2 (hindex.isTight hne)
  have hasks := Service.asks_sourceRequest .captureImage i.toText
  have hlocated : located = _ := imageLocation_link hc i s now
  rw [hlocated]
  refine ⟨?_, fun hno => ?_⟩
  · rintro d hd rfl
    obtain ⟨hget, hsettled⟩ := hholds.get?_of_mem hd
    have hstill := Capture.still_of_find (Capture.find_of_known hnames hget)
    rw [← hsettled.src] at hstill
    have hsrc : Text.IsPrintable d.src := by
      rw [hsettled.src, hpreview]
      exact Preview.isPrintable_render htemplate hindex hne _
    rw [readLocation_of_refersTo (Service.refersTo_of_valid hasks hstill hsrc.isHeaderValue) hsrc]
  · have hfind := Capture.find_of_unknown hnames (hholds.get?_eq_none_iff.2 hno)
    have hanswer : Service.captureImage s.registry (some i.toText) = Refusal.notFound.plain := by
      simp [Service.captureImage, Capture.still_eq_error_iff.2 hfind, Refusal.ofFailure]
    have hrespond := Service.respond_captureImage s now hasks
    rw [hanswer] at hrespond
    obtain ⟨hstatus, -, hbody⟩ := hrespond
    rw [readLocation_notFound hstatus hbody]

/-- A camera whose name has the characters that forms, queries and templates set apart. -/
def markedCamera : Camera :=
  ⟨.name "1+1 %&=#\x7bindex\x7d", none, "", .ofInt 30, .number 1, none, none, ⟨4, 3⟩,
    [⟨.number 1, "RGB", none, none⟩]⟩

theorem imageLocation_eq_markedCamera :
    let options : Registry.Options :=
      ⟨⟨"http://cam/\x7bindex\x7d/\x7bwidth\x7dx\x7bheight\x7d"⟩, .strict⟩
    let client : Client := ⟨⟨"http://" ++ String.ofList ("localhost".toList ++ ':' ::
      Natural.digits (8080 : UInt16).toNat)⟩⟩
    ∃ r₀, Registry.ofCameras [markedCamera] options = .ok r₀ ∧
      (client.imageLocation (Service.link "now") markedCamera.index ⟨default, r₀, .synthetic⟩).1 =
        .ok "http://cam/1+1 %&=#\x7bindex\x7d/4x3" := by
  intro options client
  have hlisted : (Registry.ofCameras [markedCamera] options).toOption.map
      (·.toList.map fun d => (d.index, d.src)) =
        some [(markedCamera.index, "http://cam/1+1 %&=#\x7bindex\x7d/4x3")] := by decide +kernel
  rcases h : Registry.ofCameras [markedCamera] options with e | r₀
  · simp [h, Except.toOption] at hlisted
  · rw [h, Except.toOption, Option.map_some, Option.some.injEq] at hlisted
    have hmem : (markedCamera.index, "http://cam/1+1 %&=#\x7bindex\x7d/4x3") ∈
        r₀.toList.map fun d => (d.index, d.src) := hlisted ▸ List.mem_cons_self
    obtain ⟨d, hd, hshown⟩ := List.mem_map.1 hmem
    obtain ⟨hindex, hsrc⟩ := Prod.mk.inj hshown
    have hlocated := (imageLocation_eq (s := ⟨default, r₀, .synthetic⟩) h [] rfl
      (by decide +kernel) (isRooted_localhost 8080) (by decide) (by decide) (by decide +kernel)
      "now").1 d hd hindex
    exact ⟨r₀, rfl, by rw [hlocated, hsrc]⟩

end Client

end CameraFleet
