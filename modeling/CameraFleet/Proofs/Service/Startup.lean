import CameraFleet.CommandLine.Serve
import CameraFleet.Proofs.Http.Cors
import CameraFleet.Proofs.Registry.Seeding
import CameraFleet.Proofs.Service.Runs
import CameraFleet.Proofs.Settings.Loading

/-!
# Services of settings that were loaded

What loading checks is all that a service needs besides sound cameras: the template makes previews
(`Settings.IsUsable.registryOptions`), only the cameras can be refused
(`Settings.IsUsable.registry_error`), and the policy for other sites leaves out none of the methods
and headers (`Settings.IsUsable.filter_methods`, `Settings.IsUsable.filter_headers`). So the answer
to a question about what is allowed lists all of them, after any requests
(`Service.items_respond_methods`, `Service.items_respond_headers`).
-/

namespace CameraFleet

theorem Registry.Holds.isEmpty_eq_false {r : Registry} {seeds : List Camera} (h : r.Holds seeds)
    (hne : seeds ≠ []) : r.isEmpty = false := by
  obtain ⟨c, hc⟩ := List.exists_mem_of_ne_nil seeds hne
  obtain ⟨e, he, -⟩ := List.mem_map.1 ((h.keys c.index).2 (List.mem_map_of_mem hc))
  exact List.isEmpty_eq_false_iff_exists_mem.2 ⟨e, he⟩

namespace Settings

variable {s : Settings}

theorem IsUsable.registryOptions (h : s.IsUsable) :
    s.registryOptions = .ok ⟨⟨s.template⟩, s.policy⟩ := by
  simp only [Settings.registryOptions, Preview.ofText, if_pos h.template]

/-- Of settings that can be used only the cameras can be refused. -/
theorem IsUsable.registry_error (h : s.IsUsable) {e : Failure} (he : s.registry = .error e) :
    (∃ flaw : Camera.Flaw, e = .invalidSeed flaw.toDefect) ∨ ∃ i, e = .duplicateIndex i := by
  rw [registry, h.registryOptions] at he
  rcases Registry.ofCameras_error he with ⟨c, -, flaw, -, rfl⟩ | ⟨c, -, rfl⟩
  · exact Or.inl ⟨flaw, rfl⟩
  · exact Or.inr ⟨c.index, rfl⟩

theorem IsUsable.filter_methods (h : s.IsUsable) :
    s.cors.methods.filter Http.isMethod = s.cors.methods :=
  List.filter_eq_self.2 h.methods

theorem IsUsable.filter_headers (h : s.IsUsable) :
    s.cors.headers.filter Http.isHeaderName = s.cors.headers :=
  List.filter_eq_self.2 h.headers

end Settings

namespace Service

open Http.Cors (policyOf preflightHeaders)

variable {s : Service} {q : Http.Request} {name : String}

/-- The service can always be built, and is built with the policy that it answers by. -/
theorem build?_eq (settings : Settings) : build? settings = some (policyOf settings) := by
  have hroutes : (Route.all.map Route.path).Nodup := by decide
  rw [build?, if_pos hroutes, Http.Cors.build?_eq]

/-! ## What is listed -/

theorem items_routeHeaders (hallow : "allow" ≠ name) (target : String) :
    Http.Headers.items (routeHeaders target) name = [] := by
  refine Http.Headers.items_of_ne fun x hx => ?_
  simp only [routeHeaders, Option.mem_toList, Option.map_eq_some_iff] at hx
  obtain ⟨route, -, rfl⟩ := hx
  exact ⟨by simp [Route.allowHeader, Http.Headers.sentNames, Http.Headers.ownNames], hallow⟩

theorem items_respond (hm : q.method = "OPTIONS") (hallow : "allow" ≠ name) (s : Service)
    (time : String) : Http.Headers.items (s.respond time q).1.headers name =
      Http.Headers.items (preflightHeaders (policyOf s.settings)
        (Http.Headers.get? q.headers "origin")) name := by
  simp only [respond, if_pos hm, Http.Headers.items_append, items_routeHeaders hallow,
    List.nil_append]

theorem items_respond_methods (hdev : s.settings.devMode = false) (h : s.settings.IsUsable)
    (hm : q.method = "OPTIONS") (time : String) :
    Http.Headers.items (s.respond time q).1.headers "access-control-allow-methods" =
      s.settings.cors.methods := by
  rw [items_respond hm (by decide), Http.Cors.policyOf_closed hdev, Http.Cors.items_methods,
    h.filter_methods]

theorem items_respond_headers (hdev : s.settings.devMode = false) (h : s.settings.IsUsable)
    (hm : q.method = "OPTIONS") (time : String) :
    Http.Headers.items (s.respond time q).1.headers "access-control-allow-headers" =
      s.settings.cors.headers.map Text.lower := by
  rw [items_respond hm (by decide), Http.Cors.policyOf_closed hdev, Http.Cors.items_headers,
    h.filter_headers]

/-! ## Starting -/

/-- Settings that were loaded make a service with cameras, unless one of the cameras is refused.
It is built with the policy that it answers by, which outside the development mode leaves out no
method and no header: all of them are listed in every answer to a question about them. -/
theorem starts_of_load {disk : Settings.Disk} {options : Settings.LoadOptions}
    {environment : Settings.Environment} {loaded : Settings.Loaded}
    (hload : Settings.load disk options environment = .ok loaded) (raw : RawSource) :
    let settings := loaded.settings
    (∃ o, settings.registryOptions = .ok o) ∧
    (∀ e, ofSettings settings raw = .error e →
      (∃ flaw : Camera.Flaw, e = .invalidSeed flaw.toDefect) ∨ ∃ i, e = .duplicateIndex i) ∧
    (∀ s, ofSettings settings raw = .ok s → s.registry.isEmpty = false) ∧
    build? settings = some (policyOf settings) ∧
    (settings.devMode = false →
      settings.cors.methods.filter Http.isMethod = settings.cors.methods ∧
      settings.cors.headers.filter Http.isHeaderName = settings.cors.headers ∧
      ∀ s, ofSettings settings raw = .ok s → ∀ time requests now q, q.method = "OPTIONS" →
        let answer := ((s.respondAll time requests).2.respond now q).1
        Http.Headers.items answer.headers "access-control-allow-methods" =
          settings.cors.methods ∧
        Http.Headers.items answer.headers "access-control-allow-headers" =
          settings.cors.headers.map Text.lower) := by
  intro settings
  have husable : settings.IsUsable := Settings.isUsable_of_load hload
  refine ⟨⟨_, husable.registryOptions⟩, fun e he => ?_, fun s hs => ?_, build?_eq settings,
    fun hdev => ⟨husable.filter_methods, husable.filter_headers, ?_⟩⟩
  · exact husable.registry_error (ofSettings_error he)
  · obtain ⟨-, -, hregistry⟩ := ofSettings_ok hs
    exact (Settings.holds_registry hregistry).isEmpty_eq_false husable.cameras
  · intro s hs time requests now q hm answer
    have hsettings : (s.respondAll time requests).2.settings = settings := by
      rw [settings_respondAll, (ofSettings_ok hs).1]
    rw [← hsettings] at hdev husable ⊢
    exact ⟨items_respond_methods hdev husable hm now, items_respond_headers hdev husable hm now⟩

/-- Methods and headers from the environment, and all else as it is without settings. -/
theorem starts_of_load_two_methods :
    let environment := [("CORS_ALLOWED_METHODS", "GET, PUT"),
      ("CORS_ALLOWED_HEADERS", "Content-Type,X-Token")]
    let q : Http.Request := ⟨"OPTIONS", "/ping", [("Origin", "http://localhost:8080")], .empty⟩
    ∃ loaded, Settings.load .empty ⟨none, none⟩ environment = .ok loaded ∧
      loaded.settings.devMode = false ∧ q.method = "OPTIONS" ∧
      ∃ s, ofSettings loaded.settings .synthetic = .ok s ∧ s.registry.isEmpty = false ∧
        Http.Headers.items (s.respond "now" q).1.headers "access-control-allow-methods" =
          ["GET", "PUT"] ∧
        Http.Headers.items (s.respond "now" q).1.headers "access-control-allow-headers" =
          ["content-type", "x-token"] := by
  intro environment q
  have hfacts : (Settings.load .empty ⟨none, none⟩ environment).toOption.map (fun loaded =>
      (loaded.settings.devMode, loaded.settings.cors.methods,
        loaded.settings.cors.headers.map Text.lower, loaded.settings.registry.toOption.isSome)) =
      some (false, ["GET", "PUT"], ["content-type", "x-token"], true) := by
    decide +kernel
  rcases hload : Settings.load .empty ⟨none, none⟩ environment with e | loaded
  · simp [hload, Except.toOption] at hfacts
  · rw [hload] at hfacts
    simp only [Except.toOption, Option.map_some, Option.some.injEq, Prod.mk.injEq] at hfacts
    obtain ⟨hdev, hmethods, hheaders, hregistry⟩ := hfacts
    obtain ⟨-, -, hcameras, -, hlists⟩ := starts_of_load hload .synthetic
    obtain ⟨s, hs⟩ := exists_ofSettings loaded.settings .synthetic hregistry
    obtain ⟨hm, hh⟩ := (hlists hdev).2.2 s hs "now" [] "now" q rfl
    exact ⟨loaded, rfl, hdev, rfl, s, hs, hcameras s hs, hm.trans hmethods, hh.trans hheaders⟩

end Service

namespace CommandLine

/-- The program never breaks off for a service that cannot be put together. -/
theorem Serve.start_ne_broken (c : Serve) (disk : Settings.Disk) (env : Settings.Environment) :
    c.start disk env ≠ .error .broken := by
  unfold start
  simp only [Service.build?_eq]
  repeat' split
  all_goals simp

end CommandLine

end CameraFleet
