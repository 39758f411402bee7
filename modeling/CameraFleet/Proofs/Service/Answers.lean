import CameraFleet.Proofs.Capture.Outcome
import CameraFleet.Proofs.Http.Form
import CameraFleet.Proofs.Http.Header

/-!
# The answers of a service

There are eight kinds of answers to what is no question about what is allowed
(`Service.Answers`), and each request gets one of them (`respond_cases`). What is added for other
sites leaves alone the headers that say something of the answer itself
(`get?_append_siteHeaders`). A request for a capture gets the answer to the source that its query
names (`respond_captureImage`, `respond_captureBinary`), which may be any text
(`asks_sourceRequest`).
-/

namespace CameraFleet

namespace Service

variable {s : Service} {time : String} {q : Http.Request}

theorem get?_append_siteHeaders {name : String} (h : name ∉ Http.Cors.siteNames)
    (hs : Http.Headers) (s : Service) (q : Http.Request) :
    Http.Headers.get? (hs ++ siteHeaders s q) name = Http.Headers.get? hs name :=
  Http.Headers.get?_append_of_absent fun _ hx hname => h (hname ▸ Http.Cors.mem_siteNames hx)

/-- What is told of a query that names more than one source. -/
def duplicateSource : String :=
  "Failed to deserialize query string: duplicate field \x60source\x60"

theorem sourceOf_error {query : Option String} {message : String}
    (h : sourceOf query = .error message) : message = duplicateSource := by
  unfold sourceOf at h
  split at h
  · simp at h
  · simp at h
  · exact (Except.error.inj h).symm.trans (by decide)

/-- The headers of a download. -/
def downloadHeaders (capture : RawCapture) : Http.Headers :=
  [("content-type", "application/octet-stream"),
   ("content-disposition", disposition capture.filename),
   ("cache-control", "no-store"),
   ("x-framerate", capture.frameRate.plain)]

/-- What a service may answer, before anything is added for other sites. -/
inductive Answers (s : Service) : Http.Response → Prop where
  | unrouted : Answers s (.empty 404)
  | refusedMethod (route : Route) :
    Answers s { Http.Response.empty 405 with headers := [route.allowHeader] }
  | tooLarge : Answers s (.text 413 "Failed to buffer the request body: length limit exceeded")
  | document {status : Nat} (hstatus : status ∈ [200, 400, 404]) (d : Datum) :
    Answers s (.json status d)
  | duplicate : Answers s (.text 400 duplicateSource)
  | refused {source : Option String} {e : Failure}
    (h : Capture.raw s.registry s.raw source = .error e) : Answers s (Refusal.ofFailure e).plain
  | image {source : Option String} {still : StillImage}
    (h : Capture.still s.registry source = .ok still) :
    Answers s (.withHeaders 302 302 [("location", still.location)] .empty)
  | binary {source : Option String} {capture : RawCapture}
    (h : Capture.raw s.registry s.raw source = .ok capture) :
    Answers s (.withHeaders 200 500 (downloadHeaders capture) capture.bytes)

theorem answers_setConfig (s : Service) (body : ByteArray) :
    Answers s (setConfig s.registry body).1 := by
  obtain ⟨v, -, hv, -⟩ := setConfig_judged s.registry body
  rw [hv]
  cases v
  case tooLarge => exact .tooLarge
  all_goals exact .document (by decide) _

theorem answers_captureImage (s : Service) (source : Option String) :
    Answers s (captureImage s.registry source) := by
  unfold captureImage
  rcases h : Capture.still s.registry source with e | still
  · exact .refused (Capture.raw_eq_error_iff.2 (Capture.still_eq_error_iff.1 h) s.raw)
  · exact .image h

theorem answers_captureBinary (s : Service) (source : Option String) :
    Answers s (captureBinary s.registry s.raw source) := by
  unfold captureBinary
  rcases h : Capture.raw s.registry s.raw source with e | capture
  · exact .refused h
  · exact .binary h

theorem answers_withSource {answer : Option String → Http.Response}
    (h : ∀ source, Answers s (answer source)) (query : Option String) :
    Answers s (withSource query answer) := by
  unfold withSource
  rcases hquery : sourceOf query with message | source
  · rw [sourceOf_error hquery]
    exact .duplicate
  · exact h source

theorem answers_handle (s : Service) (time : String) (route : Route) (query : Option String)
    (body : ByteArray) : Answers s (s.handle time route query body).1 := by
  cases route with
  | ping => exact .document (by decide) _
  | cameraInfo => exact .document (by decide) _
  | setConfig => exact answers_setConfig s body
  | captureImage => exact answers_withSource (answers_captureImage s) query
  | captureBinary => exact answers_withSource (answers_captureBinary s) query

theorem answers_dispatch (s : Service) (time : String) (q : Http.Request) :
    Answers s (s.dispatch time q).1 := by
  unfold dispatch
  dsimp only
  split
  · exact .unrouted
  · split_ifs
    · exact answers_handle s time _ _ _
    · exact .refusedMethod _

/-- A question about what is allowed is answered without a body; anything else gets one of the
answers, with the headers for other sites, and without its body where only the head is asked
for. -/
theorem respond_cases (s : Service) (time : String) (q : Http.Request) :
    (q.method = "OPTIONS" ∧ (s.respond time q).1.status = 200 ∧
      (s.respond time q).1.body = .empty) ∨
    ∃ a, Answers s a ∧ (s.respond time q).1.status = a.status ∧
      (s.respond time q).1.headers = a.headers ++ siteHeaders s q ∧
      (s.respond time q).1.body = if q.method = "HEAD" then .empty else a.body := by
  unfold respond
  by_cases hm : q.method = "OPTIONS"
  · exact Or.inl (by simp [hm, Http.Response.empty])
  · exact Or.inr ⟨_, answers_dispatch s time q, by simp [hm, siteHeaders]⟩

/-- A request on a route by one of its methods is answered as the route has it. -/
theorem respond_route {route : Route} {query : Option String} (hm : q.method ∈ route.methods)
    (htarget : Http.Target.ofText q.target = ⟨route.path, query⟩) :
    (s.respond time q).1 =
      ⟨(s.handle time route query q.body).1.status,
        (s.handle time route query q.body).1.headers ++ siteHeaders s q,
        if q.method = "HEAD" then .empty else (s.handle time route query q.body).1.body⟩ := by
  have hroute : Route.ofPath? route.path = some route := Route.ofPath?_path route
  have hno : q.method ≠ "OPTIONS" := by
    intro h
    rw [h] at hm
    cases route <;> exact absurd hm (by decide)
  simp only [respond, if_neg hno, dispatch, htarget, hroute, if_pos hm, siteHeaders]

/-! ## Requests for captures -/

/-- A request to have something of the camera that a source names. -/
def Asks (q : Http.Request) (route : Route) (source : Option String) : Prop :=
  q.method = "GET" ∧ ∃ query,
    Http.Target.ofText q.target = ⟨route.path, query⟩ ∧ sourceOf query = .ok source

/-- The request on a route with a text for the source. -/
def sourceRequest (route : Route) (x : String) : Http.Request :=
  ⟨"GET", route.path ++ "?" ++ Http.Form.pairText "source" x, [], .empty⟩

theorem asks_sourceRequest (route : Route) (x : String) :
    Asks (sourceRequest route x) route (some x) := by
  have hpath : (∃ rest, route.path.toList = '/' :: rest) ∧
      '#' ∉ route.path.toList ∧ '?' ∉ route.path.toList := by
    cases route <;> exact ⟨⟨_, rfl⟩, by decide⟩
  obtain ⟨⟨rest, hrest⟩, hends⟩ := hpath
  have hquery : '#' ∉ (Http.Form.pairText "source" x).toList :=
    Http.Form.not_mem_pairText (by decide) (by decide) (by decide) (by decide)
  refine ⟨rfl, _, Http.Target.ofText_query hrest hends hquery, ?_⟩
  simp [sourceOf, Http.Form.pairs_single, Capture.sourceParameter]

variable {source : Option String}

theorem respond_captureImage (s : Service) (time : String) (h : Asks q .captureImage source) :
    (s.respond time q).1.status = (captureImage s.registry source).status ∧
      (s.respond time q).1.headers = (captureImage s.registry source).headers ++ siteHeaders s q ∧
      (s.respond time q).1.body = (captureImage s.registry source).body := by
  obtain ⟨hm, query, htarget, hsource⟩ := h
  have hallowed : q.method ∈ Route.captureImage.methods := by simp [hm, Route.methods]
  simp [respond_route hallowed htarget, handle, withSource, hsource, hm]

theorem respond_captureBinary (s : Service) (time : String) (h : Asks q .captureBinary source) :
    (s.respond time q).1.status = (captureBinary s.registry s.raw source).status ∧
      (s.respond time q).1.headers =
        (captureBinary s.registry s.raw source).headers ++ siteHeaders s q ∧
      (s.respond time q).1.body = (captureBinary s.registry s.raw source).body := by
  obtain ⟨hm, query, htarget, hsource⟩ := h
  have hallowed : q.method ∈ Route.captureBinary.methods := by simp [hm, Route.methods]
  simp [respond_route hallowed htarget, handle, withSource, hsource, hm]

/-! ## Runs -/

theorem raw_respond (s : Service) (time : String) (q : Http.Request) :
    (s.respond time q).2.raw = s.raw := by
  unfold respond
  split_ifs <;> rfl

theorem raw_respondAll (time : String) : ∀ (requests : List Http.Request) (s : Service),
    (s.respondAll time requests).2.raw = s.raw
  | [], _ => rfl
  | q :: rest, s => by rw [respondAll_cons, raw_respondAll time rest, raw_respond]

end Service

end CameraFleet
