import CameraFleet.Settings.Loading
import CameraFleet.Proofs.Text.Bytes

/-!
# Settings that were loaded

Whatever the settings come from, they are put together in one place (`compose_of_load`), and what
holds of all settings that are put together holds of all that are loaded: they pass every check
(`isUsable_of_load`), which warnings they come with, and what the cameras are when none are
configured.
-/

namespace CameraFleet

namespace Toml

/-- The value of a document, given its characters. -/
def read? (cs : List Char) : Option Datum := do
  let cs := match cs with
    | '\uFEFF' :: cs => cs
    | cs => cs
  let doc ← lines? (cs.length + 1) .empty cs
  let fields ← doc.finish?
  return .table (fieldsToData fields)

theorem read?_characters (s : String) : read? (Text.characters s) = parse? s := by
  rw [Text.characters_eq]
  rfl

end Toml

namespace Settings

variable {disk : Disk} {configPath : Option String} {file : FileSettings} {env : Overrides}
  {found : Bool} {loaded : Loaded}

theorem compose_of_loadFrom {options : LoadOptions}
    (h : loadFrom disk options env found = .ok loaded) :
    ∃ path file, compose disk path file env found = .ok loaded := by
  unfold loadFrom at h
  split at h
  · exact absurd h (by simp)
  · exact ⟨_, _, h⟩
  · exact ⟨_, _, h⟩

theorem compose_of_load {options : LoadOptions} {environment : Environment}
    (h : load disk options environment = .ok loaded) :
    ∃ path file env found, compose disk path file env found = .ok loaded := by
  unfold load at h
  split at h
  · obtain ⟨path, file, h⟩ := compose_of_loadFrom h
    exact ⟨path, file, _, _, h⟩
  · split at h
    · exact absurd h (by simp)
    · obtain ⟨path, file, h⟩ := compose_of_loadFrom h
      exact ⟨path, file, _, _, h⟩

/-- What settings come from when they can be put together. -/
theorem compose_ok (h : compose disk configPath file env found = .ok loaded) :
    findCameras disk configPath file env =
        .ok (loaded.settings.cameras, loaded.settings.cameraSource) ∧
      problem? loaded.settings = none ∧
      loaded.warnings = (if configPath.isNone then [.noConfigFile] else []) ++
        (if loaded.settings.cameraSource = .demo then [.demoFleet] else []) ++
          originWarnings loaded.settings := by
  unfold compose at h
  cases hp : choosePolicy env.policy file.policy with
  | error e => rw [hp] at h; exact absurd h (by simp)
  | ok policy =>
    cases hc : findCameras disk configPath file env with
    | error e => rw [hp, hc] at h; exact absurd h (by simp)
    | ok found =>
      rw [hp, hc] at h
      dsimp only at h
      split at h
      · exact absurd h (by simp)
      · cases h
        exact ⟨rfl, ‹_›, rfl⟩

/-! ## Checks -/

/-- Settings that nothing is in the way of using. -/
structure IsUsable (s : Settings) : Prop where
  template : Preview.isComplete s.template
  cameras : s.cameras ≠ []
  methods_ne_nil : s.cors.methods ≠ []
  methods : ∀ m ∈ s.cors.methods, Http.isMethod m
  headers : ∀ h ∈ s.cors.headers, Http.isHeaderName h

theorem problem?_eq_none_iff {s : Settings} : problem? s = none ↔ s.IsUsable := by
  constructor
  · intro h
    unfold problem? at h
    split_ifs at h with htemplate hcameras hmethods
    split at h
    · simp at h
    · rename_i hfind
      exact ⟨by simpa using htemplate, by simpa using hcameras, by simpa using hmethods,
        by simpa using hfind, by simpa using h⟩
  · intro h
    have hmethods : s.cors.methods.find? (!Http.isMethod ·) = none := by simpa using h.methods
    have hheaders : s.cors.headers.find? (!Http.isHeaderName ·) = none := by simpa using h.headers
    simp [problem?, h.template, h.cameras, h.methods_ne_nil, hmethods, hheaders]

theorem isUsable_of_load {options : LoadOptions} {environment : Environment}
    (h : load disk options environment = .ok loaded) : loaded.settings.IsUsable := by
  obtain ⟨path, file, env, found, hcompose⟩ := compose_of_load h
  exact problem?_eq_none_iff.1 (compose_ok hcompose).2.1

/-! ## Sources -/

/-- What is loaded from a disk with a settings file alone, without the environment, in a form that
is quick to evaluate. -/
theorem load_settingsFile (s : String) :
    let disk : Disk := ⟨[(["ferrocam.toml"], s.toUTF8)], []⟩
    load disk ⟨none, none⟩ [] =
      match (Toml.read? (Text.characters s)).bind FileSettings.ofDatum? with
      | some file => compose disk (some "ferrocam.toml") file (.ofEnvironment []) false
      | none => .error (.malformedConfig "ferrocam.toml") := by
  intro disk
  have hparse : (Toml.read? (Text.characters s)).bind FileSettings.ofDatum? =
      FileSettings.parse? s := by rw [Toml.read?_characters, FileSettings.parse?]
  rw [hparse]
  have henv : disk.file? ".env" = none := rfl
  have hfind : defaultPaths.find? disk.contains = some "ferrocam.toml" := rfl
  have hfile : disk.file? "ferrocam.toml" = some s.toUTF8 := rfl
  have htext : disk.text? "ferrocam.toml" = some s := by
    rw [Disk.text?, hfile, Option.bind_some, Utf8.fromUTF8?_toUTF8]
  have hpath : (Overrides.ofEnvironment []).configPath = none := rfl
  unfold load loadFrom findFile readFile
  simp only [henv, hfind, htext, hpath, Option.getD_none, Option.or_none]
  rcases FileSettings.parse? s with _ | file <;> rfl

theorem wildcardOrigin_mem_iff (h : compose disk configPath file env found = .ok loaded) :
    .wildcardOrigin ∈ loaded.warnings ↔
      loaded.settings.devMode = false ∧ loaded.settings.cors.hasWildcard := by
  obtain ⟨-, -, hw⟩ := compose_ok h
  rw [hw, originWarnings]
  split_ifs <;> simp_all

theorem findCameras_demo {cameras : List Camera}
    (h : findCameras disk configPath file env = .ok (cameras, .demo)) :
    cameras = DemoFleet.cameras := by
  unfold findCameras at h
  split at h
  · rename_i path _
    rcases hr : readCameras disk path with e | cs <;> simp [hr, Except.map] at h
  · split_ifs at h <;> simp_all

end Settings

end CameraFleet
