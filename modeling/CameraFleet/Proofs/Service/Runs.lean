import CameraFleet.Proofs.Registry.Runs
import CameraFleet.Proofs.Service.Verdict

/-!
# Runs of requests

Behind the service the registry sees only the changes of configuration that were answered with
success (`accepted`), in their order (`respondAll_refines`): a request is one of those and
applies the patch that its body asks for, or it leaves the registry alone (`respond_step`).
-/

namespace CameraFleet.Settings

variable {s : Settings} {r : Registry}

/-- The registry that settings describe holds the configured cameras. -/
theorem holds_registry (h : s.registry = .ok r) : r.Holds s.cameras := by
  unfold registry at h
  split at h
  · exact (Registry.holds_ofCameras h).1
  · exact absurd h (by simp)

theorem preview_registry (h : s.registry = .ok r) : r.options.preview = ⟨s.template⟩ := by
  rcases hcomplete : Preview.isComplete s.template with _ | _
  · simp [registry, registryOptions, Preview.ofText, hcomplete] at h
  · simp only [registry, registryOptions, Preview.ofText, hcomplete, if_true] at h
    rw [(Registry.holds_ofCameras h).2]

end CameraFleet.Settings

namespace CameraFleet.Service

open Verdict (Judged)
open SetRequest (callOf?)

/-- A request to change the configuration of a camera. -/
def IsSetConfig (q : Http.Request) : Prop :=
  q.method = "POST" ∧ (Http.Target.ofText q.target).path = Route.setConfig.path

instance (q : Http.Request) : Decidable (IsSetConfig q) :=
  inferInstanceAs (Decidable (_ ∧ _))

/-- The calls of the requests that change a configuration and were answered with success. -/
def accepted (requests : List Http.Request) (responses : List Http.Response) :
    List (Ident × Patch) :=
  (requests.zip responses).filterMap fun (q, a) =>
    if IsSetConfig q ∧ a.status = 200 then callOf? q.body else none

variable {s : Service} {time : String} {q : Http.Request}

/-- The headers that tell other sites what they may do with an answer. -/
def siteHeaders (s : Service) (q : Http.Request) : Http.Headers :=
  Http.Cors.answerHeaders (Http.Cors.policyOf s.settings) (Http.Headers.get? q.headers "origin")

theorem respond_setConfig (h : IsSetConfig q) : s.respond time q =
    ({ (setConfig s.registry q.body).1 with
        headers := (setConfig s.registry q.body).1.headers ++ siteHeaders s q },
      { s with registry := (setConfig s.registry q.body).2 }) := by
  obtain ⟨hm, hp⟩ := h
  have hroute : Route.ofPath? (Http.Target.ofText q.target).path = some .setConfig := by
    rw [hp, Route.ofPath?_path]
  have hallowed : "POST" ∈ Route.setConfig.methods := by decide
  simp only [respond, dispatch, hm, hroute, hallowed, handle, siteHeaders, String.reduceEq,
    ↓reduceIte]

theorem registry_handle {route : Route} (h : route ≠ .setConfig) (query : Option String)
    (body : ByteArray) : (s.handle time route query body).2 = s.registry := by
  cases route with
  | setConfig => exact absurd rfl h
  | _ => rfl

theorem respond_snd (h : q.method ≠ "OPTIONS") :
    (s.respond time q).2 = { s with registry := (s.dispatch time q).2 } := by
  unfold respond
  rw [if_neg h]

theorem registry_dispatch (h : ¬ IsSetConfig q) : (s.dispatch time q).2 = s.registry := by
  rcases hr : Route.ofPath? (Http.Target.ofText q.target).path with _ | route
  · simp only [dispatch, hr]
  · have hpath : route.path = (Http.Target.ofText q.target).path := by
      simpa using List.find?_some hr
    simp only [dispatch, hr]
    split_ifs with hm
    · refine registry_handle (fun hset => h ?_) _ _
      subst hset
      exact ⟨List.mem_singleton.1 hm, hpath.symm⟩
    · rfl

theorem respond_other (h : ¬ IsSetConfig q) : (s.respond time q).2 = s := by
  by_cases hm : q.method = "OPTIONS"
  · unfold respond
    rw [if_pos hm]
  · rw [respond_snd hm, registry_dispatch h]

/-- A request applies the patch that it asks for and is answered with success, or it leaves the
registry alone. -/
theorem respond_step (s : Service) (time : String) (q : Http.Request) :
    (¬ (IsSetConfig q ∧ (s.respond time q).1.status = 200) ∧ (s.respond time q).2 = s) ∨
      (IsSetConfig q ∧ (s.respond time q).1.status = 200 ∧
        ∃ index p c, callOf? q.body = some (index, p) ∧
          s.registry.apply index p = (.ok c, (s.respond time q).2.registry)) := by
  by_cases hset : IsSetConfig q
  · obtain ⟨v, -, ha, ⟨hv, hr⟩ | ⟨hv, hc⟩⟩ := setConfig_judged s.registry q.body
    · refine Or.inl ⟨fun ⟨_, h200⟩ => hv (v.status_answer_eq_ok_iff.1 ?_), ?_⟩
      · rw [← ha]
        rw [respond_setConfig hset] at h200
        exact h200
      · rw [respond_setConfig hset, hr]
    · refine Or.inr ⟨hset, ?_, ?_⟩
      · rw [respond_setConfig hset]
        simp only [ha]
        exact v.status_answer_eq_ok_iff.2 hv
      · rw [respond_setConfig hset]
        exact hc
  · exact Or.inl ⟨fun h => hset h.1, respond_other hset⟩

theorem respondAll_cons (s : Service) (time : String) (q : Http.Request)
    (rest : List Http.Request) : s.respondAll time (q :: rest) =
      ((s.respond time q).1 :: ((s.respond time q).2.respondAll time rest).1,
        ((s.respond time q).2.respondAll time rest).2) := rfl

theorem accepted_cons_of_accepted {a : Http.Response} {requests : List Http.Request}
    {responses : List Http.Response} {call : Ident × Patch} (h : IsSetConfig q ∧ a.status = 200)
    (hcall : callOf? q.body = some call) :
    accepted (q :: requests) (a :: responses) = call :: accepted requests responses := by
  rw [accepted, List.zip_cons_cons, List.filterMap_cons_some]
  · rfl
  · simpa only [if_pos h] using hcall

theorem accepted_cons_of_not {a : Http.Response} {requests : List Http.Request}
    {responses : List Http.Response} (h : ¬ (IsSetConfig q ∧ a.status = 200)) :
    accepted (q :: requests) (a :: responses) = accepted requests responses := by
  rw [accepted, List.zip_cons_cons, List.filterMap_cons_none]
  · rfl
  · simp only [if_neg h]

theorem registry_respondAll (time : String) : ∀ (requests : List Http.Request) (s : Service),
    (s.respondAll time requests).2.registry =
      s.registry.run (accepted requests (s.respondAll time requests).1)
  | [], _ => rfl
  | q :: rest, s => by
    rw [respondAll_cons, registry_respondAll time rest (s.respond time q).2]
    rcases respond_step s time q with ⟨hno, hs⟩ | ⟨hset, h200, index, p, c, hcall, happly⟩
    · rw [accepted_cons_of_not hno, hs]
    · rw [accepted_cons_of_accepted ⟨hset, h200⟩ hcall, Registry.run_cons, happly]

theorem settings_respond (s : Service) (time : String) (q : Http.Request) :
    (s.respond time q).2.settings = s.settings := by
  unfold respond
  split_ifs <;> rfl

theorem settings_respondAll (time : String) : ∀ (requests : List Http.Request) (s : Service),
    (s.respondAll time requests).2.settings = s.settings
  | [], _ => rfl
  | q :: rest, s => by
    rw [respondAll_cons, settings_respondAll time rest, settings_respond]

theorem ofSettings_ok {settings : Settings} {raw : RawSource}
    (h : ofSettings settings raw = .ok s) : s.settings = settings ∧ s.raw = raw ∧
      settings.registry = .ok s.registry := by
  unfold ofSettings at h
  split at h
  · cases h
    exact ⟨rfl, rfl, ‹_›⟩
  · exact absurd h (by simp)

theorem ofSettings_error {settings : Settings} {raw : RawSource} {e : Failure}
    (h : ofSettings settings raw = .error e) : settings.registry = .error e := by
  unfold ofSettings at h
  split at h
  · exact absurd h (by simp)
  · cases h
    assumption

theorem exists_ofSettings (settings : Settings) (raw : RawSource)
    (h : settings.registry.toOption.isSome) : ∃ s, ofSettings settings raw = .ok s := by
  unfold ofSettings
  cases hr : settings.registry with
  | error e => simp [hr, Except.toOption] at h
  | ok r => exact ⟨_, rfl⟩

/-- After any requests the registry of a service holds the configured cameras. -/
theorem holds_respondAll {settings : Settings} {raw : RawSource} {s : Service}
    (hs : ofSettings settings raw = .ok s) (time : String) (requests : List Http.Request) :
    (s.respondAll time requests).2.registry.Holds settings.cameras := by
  obtain ⟨-, -, hregistry⟩ := ofSettings_ok hs
  rw [registry_respondAll]
  exact (Settings.holds_registry hregistry).run _

theorem options_respondAll (s : Service) (time : String) (requests : List Http.Request) :
    (s.respondAll time requests).2.registry.options = s.registry.options := by
  rw [registry_respondAll, Registry.run_options]

end CameraFleet.Service
