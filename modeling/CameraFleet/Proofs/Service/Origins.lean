import CameraFleet.Proofs.Http.Cors
import CameraFleet.Proofs.Service.Answers
import CameraFleet.Proofs.Settings.Loading

/-!
# The sites that an answer allows

Only the policy for other sites tells them anything: whatever is answered, the origins that the
answer allows are those that the policy gives (`allowedOrigins_respond`), and no request changes
the settings (`settings_respondAll`). Outside the development mode that is the asking origin, when
it is listed, unless the list has a wildcard or nothing in it that can be sent.
-/

namespace CameraFleet

namespace Settings

/-- Some listed origin can be sent as the value of a header. -/
def Cors.HasUsable (c : Cors) : Prop := ∃ o ∈ c.origins, Http.isHeaderValue o

theorem Cors.usable_eq_nil_iff {c : Cors} :
    c.origins.filter Http.isHeaderValue = [] ↔ ¬ c.HasUsable := by
  simp [HasUsable, List.filter_eq_nil_iff]

end Settings

namespace Http

namespace Headers

/-- The origins that a message with these headers allows. -/
def allowedOrigins (hs : Headers) : List String :=
  (hs.filter fun h => Text.lower h.1 = "access-control-allow-origin").map (·.2)

/-- The names of the headers that allow no origin. -/
def neutralNames : List String :=
  ["content-type", "content-disposition", "cache-control", "x-framerate", "location", "allow",
    "vary", "access-control-allow-methods", "access-control-allow-headers",
    "access-control-expose-headers"]

/-- Headers that allow no origin. -/
def AreNeutral (hs : Headers) : Prop := ∀ h ∈ hs, h.1 ∈ neutralNames

theorem allowedOrigins_append (hs hs' : Headers) :
    allowedOrigins (hs ++ hs') = allowedOrigins hs ++ allowedOrigins hs' := by
  simp only [allowedOrigins, List.filter_append, List.map_append]

theorem AreNeutral.allowedOrigins_eq_nil {hs : Headers} (h : hs.AreNeutral) :
    hs.allowedOrigins = [] := by
  have hnames : ∀ name ∈ neutralNames, Text.lower name ≠ "access-control-allow-origin" := by
    decide +kernel
  rw [allowedOrigins, List.map_eq_nil_iff, List.filter_eq_nil_iff]
  exact fun x hx => by simpa using hnames _ (h x hx)

end Headers

namespace Response

theorem areNeutral_text (status : Nat) (s : String) : (text status s).headers.AreNeutral := by
  simp [Headers.AreNeutral, text, Headers.neutralNames]

theorem areNeutral_json (status : Nat) (d : Datum) : (json status d).headers.AreNeutral := by
  simp [Headers.AreNeutral, json, Headers.neutralNames]

theorem areNeutral_withHeaders {headers : Headers} (h : headers.AreNeutral)
    (status failing : Nat) (body : ByteArray) :
    (withHeaders status failing headers body).headers.AreNeutral := by
  unfold withHeaders
  split_ifs
  · exact h
  · exact areNeutral_text _ _

end Response

namespace Cors

open Headers (neutralNames AreNeutral allowedOrigins allowedOrigins_append)

theorem allowedOrigins_originHeaders (p : Policy) (origin : Option String) :
    allowedOrigins (originHeaders p origin) = (p.origins.answer? origin).toList := by
  have hvary : allowedOrigins [varyHeader] = [] :=
    AreNeutral.allowedOrigins_eq_nil (by simp [AreNeutral, varyHeader, neutralNames])
  have hsame : Text.lower "access-control-allow-origin" = "access-control-allow-origin" :=
    Headers.lower_of_sent (by decide)
  rw [originHeaders, ← List.singleton_append, allowedOrigins_append, hvary, List.nil_append]
  cases p.origins.answer? origin with
  | none => rfl
  | some v => simp [allowedOrigins, hsame]

theorem areNeutral_listHeader {name : String} (h : name ∈ neutralNames) (value : String) :
    AreNeutral (listHeader name value) := by
  unfold listHeader
  split_ifs
  · simp [AreNeutral]
  · simpa [AreNeutral] using h

theorem allowedOrigins_preflightHeaders (p : Policy) (origin : Option String) :
    allowedOrigins (preflightHeaders p origin) = (p.origins.answer? origin).toList := by
  have hm : AreNeutral (listHeader "access-control-allow-methods" p.methods) :=
    areNeutral_listHeader (by decide) _
  have hh : AreNeutral (listHeader "access-control-allow-headers" p.headers) :=
    areNeutral_listHeader (by decide) _
  rw [preflightHeaders, allowedOrigins_append, allowedOrigins_append,
    hm.allowedOrigins_eq_nil, hh.allowedOrigins_eq_nil, List.append_nil, List.append_nil,
    allowedOrigins_originHeaders]

theorem allowedOrigins_answerHeaders (p : Policy) (origin : Option String) :
    allowedOrigins (answerHeaders p origin) = (p.origins.answer? origin).toList := by
  have he : AreNeutral (p.exposed.map ("access-control-expose-headers", ·)).toList := by
    simp [AreNeutral, neutralNames]
  rw [answerHeaders, allowedOrigins_append, he.allowedOrigins_eq_nil, List.append_nil,
    allowedOrigins_originHeaders]

variable {c : Settings.Cors}

theorem originsOf_of_closed (hw : c.hasWildcard = false) (hu : c.HasUsable) :
    originsOf c = .listed (c.origins.filter isHeaderValue) := by
  have hne : ¬ c.origins.filter isHeaderValue = [] := fun h =>
    Settings.Cors.usable_eq_nil_iff.1 h hu
  simp only [originsOf, hw, Bool.false_eq_true, hne, or_self, ↓reduceIte]

theorem originsOf_of_open (h : c.hasWildcard ∨ ¬ c.HasUsable) : originsOf c = .any := by
  rw [← Settings.Cors.usable_eq_nil_iff] at h
  simp only [originsOf, if_pos h]

theorem mem_answer?_listed {origins : List String} {origin : Option String} {v : String} :
    v ∈ ((Origins.listed origins).answer? origin).toList ↔ origin = some v ∧ v ∈ origins := by
  cases origin with
  | none => simp [Origins.answer?]
  | some o => simp [Origins.answer?, Option.filter_some, and_comm]; grind

end Cors

end Http

namespace Service

open Http.Cors (originsOf)
open Http.Headers (AreNeutral allowedOrigins allowedOrigins_append neutralNames)
open Http.Response (areNeutral_text areNeutral_json areNeutral_withHeaders)

variable {s : Service} {time : String} {q : Http.Request}

/-! ## What is answered without regard to other sites -/

theorem Answers.areNeutral {a : Http.Response} (ha : Answers s a) : a.headers.AreNeutral := by
  cases ha with
  | unrouted => simp [AreNeutral, Http.Response.empty]
  | refusedMethod route => simp [AreNeutral, Route.allowHeader, neutralNames]
  | document => exact areNeutral_json _ _
  | image => exact areNeutral_withHeaders (by simp [AreNeutral, neutralNames]) _ _ _
  | binary =>
    exact areNeutral_withHeaders (by simp [AreNeutral, downloadHeaders, neutralNames]) _ _ _
  | _ => exact areNeutral_text _ _

/-! ## What other sites are told -/

/-- Every answer allows the origins that the policy gives for the request. -/
theorem allowedOrigins_respond (s : Service) (time : String) (q : Http.Request) :
    allowedOrigins (s.respond time q).1.headers = ((Http.Cors.policyOf s.settings).origins.answer?
      (Http.Headers.get? q.headers "origin")).toList := by
  unfold respond
  by_cases hm : q.method = "OPTIONS"
  · have hroute : AreNeutral (routeHeaders q.target) := by
      simp [AreNeutral, routeHeaders, Route.allowHeader, neutralNames]
    simp only [if_pos hm, allowedOrigins_append, hroute.allowedOrigins_eq_nil, List.nil_append,
      Http.Cors.allowedOrigins_preflightHeaders]
  · simp only [if_neg hm, allowedOrigins_append,
      (answers_dispatch s time q).areNeutral.allowedOrigins_eq_nil, List.nil_append,
      Http.Cors.allowedOrigins_answerHeaders]

theorem allowedOrigins_respondAll {s : Service} (hdev : s.settings.devMode = false) (time : String)
    (requests : List Http.Request) (now : String) (q : Http.Request) :
    allowedOrigins ((s.respondAll time requests).2.respond now q).1.headers =
      ((originsOf s.settings.cors).answer? (Http.Headers.get? q.headers "origin")).toList := by
  rw [allowedOrigins_respond, settings_respondAll, Http.Cors.policyOf_closed hdev]
  rfl

/-- Outside the development mode the list of allowed origins is closed: unless it has a wildcard
or no origin that can be sent, an answer allows at most the asking origin, and only when that is
listed. Every origin is allowed in just those two cases, of which the first comes with a
warning. -/
theorem allowedOrigins_closed {disk : Settings.Disk} {options : Settings.LoadOptions}
    {environment : Settings.Environment} {loaded : Settings.Loaded} {raw : RawSource} {s : Service}
    (hload : Settings.load disk options environment = .ok loaded)
    (hdev : loaded.settings.devMode = false)
    (hs : ofSettings loaded.settings raw = .ok s) (time : String)
    (requests : List Http.Request) (now : String) (q : Http.Request) :
    let answer := ((s.respondAll time requests).2.respond now q).1
    let cors := loaded.settings.cors
    ((∀ o ∈ cors.origins, Text.trim o ≠ "*") → cors.HasUsable →
      ∀ v ∈ allowedOrigins answer.headers,
        Http.Headers.get? q.headers "origin" = some v ∧ v ∈ cors.origins ∧ v ≠ "*") ∧
    ("*" ∈ allowedOrigins answer.headers ↔
      .wildcardOrigin ∈ loaded.warnings ∨ ¬ cors.HasUsable) := by
  intro answer cors
  obtain ⟨path, file, env, found, hcompose⟩ := Settings.compose_of_load hload
  obtain ⟨hsettings, -, -⟩ := ofSettings_ok hs
  have hallowed : allowedOrigins answer.headers =
      ((originsOf cors).answer? (Http.Headers.get? q.headers "origin")).toList := by
    have := allowedOrigins_respondAll (by rwa [hsettings]) time requests now q
    rwa [hsettings] at this
  have hclosed : cors.hasWildcard = false → cors.HasUsable →
      ∀ v ∈ allowedOrigins answer.headers,
        Http.Headers.get? q.headers "origin" = some v ∧ v ∈ cors.origins ∧ v ≠ "*" := by
    intro hw hu v hv
    rw [hallowed, Http.Cors.originsOf_of_closed hw hu, Http.Cors.mem_answer?_listed] at hv
    have hlisted := (List.mem_filter.1 hv.2).1
    exact ⟨hv.1, hlisted, fun h => Settings.Cors.star_not_mem hw (h ▸ hlisted)⟩
  refine ⟨fun hw => hclosed (Settings.Cors.hasWildcard_eq_false_iff.2 hw), ?_⟩
  rw [Settings.wildcardOrigin_mem_iff hcompose, and_iff_right hdev]
  constructor
  · intro hstar
    by_contra hno
    rw [not_or, not_not, Bool.not_eq_true] at hno
    exact (hclosed hno.1 hno.2 _ hstar).2.2 rfl
  · intro hopen
    rw [hallowed, Http.Cors.originsOf_of_open hopen]
    exact List.mem_singleton_self _

/-- What is loaded when only the environment says anything, and only which origins are allowed. -/
def loadedWith (origins : List String) : Settings.Loaded where
  settings := {
    host := "0.0.0.0", port := 8080
    cors := ⟨origins, ["GET", "POST", "OPTIONS"], ["Content-Type"]⟩
    template := Preview.defaultTemplate, policy := .permissive
    cameras := DemoFleet.cameras, devMode := false, configPath := none, envFileLoaded := false
    cameraSource := .demo }
  warnings := [.noConfigFile, .demoFleet]

theorem allowedOrigins_closed_two_listed :
    let environment := [("CORS_ALLOWED_ORIGINS", " https://ui.example,,http://localhost:5173")]
    let loaded := loadedWith ["https://ui.example", "http://localhost:5173"]
    let q : Http.Request := ⟨"GET", "/ping", [("Origin", "https://elsewhere.example")], .empty⟩
    Settings.load .empty ⟨none, none⟩ environment = .ok loaded ∧
      loaded.settings.devMode = false ∧
      ∃ s, ofSettings loaded.settings .synthetic = .ok s ∧
        ∀ v, v ∉ allowedOrigins (s.respond "now" q).1.headers := by
  intro environment loaded q
  have hload : Settings.load .empty ⟨none, none⟩ environment = .ok loaded := by decide +kernel
  obtain ⟨s, hs⟩ := exists_ofSettings loaded.settings .synthetic (by decide +kernel)
  have hclosed := (allowedOrigins_closed hload rfl hs "now" [] "now" q).1 (by decide +kernel)
    ⟨"https://ui.example", by decide, by decide +kernel⟩
  refine ⟨hload, rfl, s, hs, fun v hv => ?_⟩
  obtain ⟨horigin, hlisted, -⟩ := hclosed v hv
  have hasks : v = "https://elsewhere.example" := by
    have : Http.Headers.get? q.headers "origin" = some "https://elsewhere.example" := by
      decide +kernel
    exact Option.some.inj (horigin.symm.trans this)
  subst hasks
  exact absurd hlisted (by decide)

/-- An empty list of origins has no wildcard and gives no warning, and allows every origin. -/
theorem allowedOrigins_of_empty_list :
    let loaded := loadedWith []
    let q : Http.Request := ⟨"GET", "/ping", [("Origin", "https://elsewhere.example")], .empty⟩
    Settings.load .empty ⟨none, none⟩ [("CORS_ALLOWED_ORIGINS", "")] = .ok loaded ∧
      loaded.settings.devMode = false ∧
      (∀ o ∈ loaded.settings.cors.origins, Text.trim o ≠ "*") ∧
      .wildcardOrigin ∉ loaded.warnings ∧
      ∃ s, ofSettings loaded.settings .synthetic = .ok s ∧
        "*" ∈ allowedOrigins (s.respond "now" q).1.headers := by
  intro loaded q
  obtain ⟨s, hs⟩ := exists_ofSettings loaded.settings .synthetic (by decide +kernel)
  obtain ⟨hsettings, -, -⟩ := ofSettings_ok hs
  refine ⟨by decide +kernel, rfl, by decide, by decide, s, hs, ?_⟩
  rw [allowedOrigins_respond, Http.Cors.policyOf, hsettings]
  decide +kernel

end Service

end CameraFleet
