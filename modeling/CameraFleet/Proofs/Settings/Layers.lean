import CameraFleet.Settings.Loading

/-!
# Settings from two places

A setting means the same whether the environment or a settings file gives it, and a file says
nothing about a setting that the environment gives (`compose_put`). Settings are put together from
what both say of each key (`said`), and all that follows, the checks and the warnings, depends on
nothing else (`compose_congr`). A policy is the only setting that the environment gives as a text,
in letters of either case and with blanks around it.
-/

namespace CameraFleet

namespace Policy

/-- The text is the name of the policy in letters of either case, with any blanks around it. -/
def IsSpelled (p : Policy) (s : String) : Prop :=
  ∃ before letters after, s.toList = before ++ letters ++ after ∧
    (∀ c ∈ before, Text.isBlank c) ∧ (∀ c ∈ after, Text.isBlank c) ∧
    letters.map Char.toLower = p.toText.toList

theorem named?_toText (p : Policy) : named? p.toText = some p := by
  cases p <;> decide

theorem nameOf_of_isSpelled {p : Policy} {s : String} (h : p.IsSpelled s) :
    nameOf s = p.toText := by
  obtain ⟨before, letters, after, hs, hbefore, hafter, hletters⟩ := h
  have hlower : p.toText.toList.all Char.isLower = true := by cases p <;> rfl
  have hname : p.toText.toList ≠ [] ∧ ∀ c ∈ p.toText.toList, c.isLower = true :=
    ⟨by cases p <;> exact List.cons_ne_nil _ _, List.all_eq_true.1 hlower⟩
  rw [← hletters, List.forall_mem_map] at hname
  have hblank : ∀ c ∈ letters, Text.isBlank c = false := fun c hc =>
    Text.isBlank_eq_false_of_isLower_toLower (hname.2 c hc)
  rw [nameOf, hs, Text.stripBy_append hbefore hafter (by simpa using hname.1)
    (fun c hc => hblank c (List.mem_of_mem_head? hc))
    (fun c hc => hblank c (List.mem_of_getLast? hc)), hletters, String.ofList_toList]

theorem ofText_of_isSpelled {p : Policy} {s : String} (h : p.IsSpelled s) : ofText s = .ok p := by
  rw [ofText, nameOf_of_isSpelled h, named?_toText]

end Policy

namespace Settings

/-! ## Keys -/

/-- The settings that both the environment and a settings file can give. -/
inductive Key where
  | host
  | port
  | origins
  | methods
  | headers
  | devMode
  | template
  | policy
  deriving DecidableEq

/-- What a setting is. -/
def Key.Value : Key → Type
  | .host => String
  | .port => UInt16
  | .origins => List String
  | .methods => List String
  | .headers => List String
  | .devMode => Bool
  | .template => String
  | .policy => Policy

/-- What the environment has for a setting. -/
def Key.Entry : Key → Type
  | .host => String
  | .port => UInt16
  | .origins => List String
  | .methods => List String
  | .headers => List String
  | .devMode => Bool
  | .template => String
  | .policy => String

/-- What the environment has stands for the setting. -/
def Key.StandsFor : (k : Key) → k.Entry → k.Value → Prop
  | .host, entry, value => entry = value
  | .port, entry, value => entry = value
  | .origins, entry, value => entry = value
  | .methods, entry, value => entry = value
  | .headers, entry, value => entry = value
  | .devMode, entry, value => entry = value
  | .template, entry, value => entry = value
  | .policy, entry, value => value.IsSpelled entry

/-- What a settings file says of a key. -/
def FileSettings.get (file : FileSettings) : (k : Key) → Option k.Value
  | .host => file.host
  | .port => file.port
  | .origins => file.origins
  | .methods => file.methods
  | .headers => file.headers
  | .devMode => file.devMode
  | .template => file.template
  | .policy => file.policy

/-- The settings of a file with one key changed or left out. -/
def FileSettings.put (file : FileSettings) : (k : Key) → Option k.Value → FileSettings
  | .host, value => { file with host := value }
  | .port, value => { file with port := value }
  | .origins, value => { file with origins := value }
  | .methods, value => { file with methods := value }
  | .headers, value => { file with headers := value }
  | .devMode, value => { file with devMode := value }
  | .template, value => { file with template := value }
  | .policy, value => { file with policy := value }

/-- What the environment has for a key. -/
def Overrides.get (env : Overrides) : (k : Key) → Option k.Entry
  | .host => env.host
  | .port => env.port
  | .origins => env.origins
  | .methods => env.methods
  | .headers => env.headers
  | .devMode => env.devMode
  | .template => env.template
  | .policy => env.policy

/-- The environment with one key changed or left out. -/
def Overrides.put (env : Overrides) : (k : Key) → Option k.Entry → Overrides
  | .host, entry => { env with host := entry }
  | .port, entry => { env with port := entry }
  | .origins, entry => { env with origins := entry }
  | .methods, entry => { env with methods := entry }
  | .headers, entry => { env with headers := entry }
  | .devMode, entry => { env with devMode := entry }
  | .template, entry => { env with template := entry }
  | .policy, entry => { env with policy := entry }

variable {file file' : FileSettings} {env env' : Overrides}

namespace FileSettings

@[simp] theorem get_put_self (file : FileSettings) (k : Key) (value : Option k.Value) :
    (file.put k value).get k = value := by
  cases k <;> rfl

theorem get_put_of_ne {j k : Key} (h : j ≠ k) (file : FileSettings) (value : Option k.Value) :
    (file.put k value).get j = file.get j := by
  cases j <;> cases k <;> first | rfl | exact absurd rfl h

@[simp] theorem camerasPath_put (file : FileSettings) (k : Key) (value : Option k.Value) :
    (file.put k value).camerasPath = file.camerasPath := by
  cases k <;> rfl

@[simp] theorem cameras_put (file : FileSettings) (k : Key) (value : Option k.Value) :
    (file.put k value).cameras = file.cameras := by
  cases k <;> rfl

end FileSettings

namespace Overrides

@[simp] theorem get_put_self (env : Overrides) (k : Key) (entry : Option k.Entry) :
    (env.put k entry).get k = entry := by
  cases k <;> rfl

theorem get_put_of_ne {j k : Key} (h : j ≠ k) (env : Overrides) (entry : Option k.Entry) :
    (env.put k entry).get j = env.get j := by
  cases j <;> cases k <;> first | rfl | exact absurd rfl h

@[simp] theorem camerasPath_put (env : Overrides) (k : Key) (entry : Option k.Entry) :
    (env.put k entry).camerasPath = env.camerasPath := by
  cases k <;> rfl

end Overrides

/-! ## Layers -/

/-- What the environment and a settings file together say of a key: the environment, unless it has
nothing. -/
def said (env : Overrides) (file : FileSettings) : (k : Key) → Except LoadError (Option k.Value)
  | .host => .ok (env.host.or file.host)
  | .port => .ok (env.port.or file.port)
  | .origins => .ok (env.origins.or file.origins)
  | .methods => .ok (env.methods.or file.methods)
  | .headers => .ok (env.headers.or file.headers)
  | .devMode => .ok (env.devMode.or file.devMode)
  | .template => .ok (env.template.or file.template)
  | .policy => (choosePolicy env.policy file.policy).map some

/-- What is said of a key depends on nothing but what both have for it. -/
theorem said_congr {k : Key} (henv : env.get k = env'.get k) (hfile : file.get k = file'.get k) :
    said env file k = said env' file' k := by
  cases k <;> simp only [Overrides.get, FileSettings.get] at henv hfile <;>
    simp only [said, henv, hfile]

/-- It does not matter which of the two has a setting. -/
theorem said_put_self {k : Key} {entry : k.Entry} {value : k.Value} (h : k.StandsFor entry value)
    (env : Overrides) (file : FileSettings) :
    said (env.put k (some entry)) file k = said (env.put k none) (file.put k (some value)) k := by
  cases k with
  | policy =>
    have hread := Policy.ofText_of_isSpelled h
    simp only [said, Overrides.put, FileSettings.put, choosePolicy, hread]
    rfl
  | _ => cases h; rfl

/-- A file says nothing about what the environment has. -/
theorem said_put_of_overridden {k : Key} {entry : k.Entry} (h : env.get k = some entry)
    (file : FileSettings) (value : Option k.Value) :
    said env (file.put k value) k = said env file k := by
  cases k <;> simp only [Overrides.get] at h <;> simp only [said, h, choosePolicy] <;> rfl

/-- Settings are put together from what is said of each key, and from the cameras. -/
theorem compose_congr {disk : Disk} {configPath : Option String} {found : Bool}
    (h : ∀ k, said env file k = said env' file' k) (henv : env.camerasPath = env'.camerasPath)
    (hfile : file.camerasPath = file'.camerasPath) (hcameras : file.cameras = file'.cameras) :
    compose disk configPath file env found = compose disk configPath file' env' found := by
  have hhost : env.host.or file.host = env'.host.or file'.host := Except.ok.inj (h .host)
  have hport : env.port.or file.port = env'.port.or file'.port := Except.ok.inj (h .port)
  have horigins : env.origins.or file.origins = env'.origins.or file'.origins :=
    Except.ok.inj (h .origins)
  have hmethods : env.methods.or file.methods = env'.methods.or file'.methods :=
    Except.ok.inj (h .methods)
  have hheaders : env.headers.or file.headers = env'.headers.or file'.headers :=
    Except.ok.inj (h .headers)
  have hdevMode : env.devMode.or file.devMode = env'.devMode.or file'.devMode :=
    Except.ok.inj (h .devMode)
  have htemplate : env.template.or file.template = env'.template.or file'.template :=
    Except.ok.inj (h .template)
  have hpolicy : choosePolicy env.policy file.policy = choosePolicy env'.policy file'.policy := by
    have hmap := h .policy
    simp only [said] at hmap
    generalize choosePolicy env.policy file.policy = here at hmap ⊢
    generalize choosePolicy env'.policy file'.policy = there at hmap ⊢
    rcases here with e | p <;> rcases there with e' | p'
    · rw [Except.error.inj hmap]
    · cases hmap
    · cases hmap
    · rw [Option.some.inj (Except.ok.inj hmap)]
  have hfound : findCameras disk configPath file env = findCameras disk configPath file' env' := by
    rw [findCameras, findCameras, camerasPath?, camerasPath?, henv, hfile, hcameras]
  simp only [compose, choose, hhost, hport, horigins, hmethods, hheaders, hdevMode, htemplate,
    hpolicy, hfound]

/-- A setting that the environment gives, whatever a file says about it, has the same outcome as
one that the file gives and the environment does not: the same settings with the same warnings in
the same order, or the same error. So nothing that a file says about it makes a difference. -/
theorem compose_put (disk : Disk) (configPath : Option String) (file : FileSettings)
    (env : Overrides) (found : Bool) (k : Key) :
    (∀ entry value, k.StandsFor entry value →
      compose disk configPath file (env.put k (some entry)) found =
        compose disk configPath (file.put k (some value)) (env.put k none) found) ∧
    ∀ entry, env.get k = some entry → ∀ value,
      compose disk configPath (file.put k value) env found =
        compose disk configPath file env found := by
  refine ⟨fun entry value h => compose_congr (fun j => ?_) ?_ ?_ ?_,
    fun entry h value => compose_congr (fun j => ?_) rfl ?_ ?_⟩
  · by_cases hj : j = k
    · subst hj
      exact said_put_self h env file
    · refine said_congr ?_ (FileSettings.get_put_of_ne hj _ _).symm
      rw [Overrides.get_put_of_ne hj, Overrides.get_put_of_ne hj]
  · rw [Overrides.camerasPath_put, Overrides.camerasPath_put]
  · rw [FileSettings.camerasPath_put]
  · rw [FileSettings.cameras_put]
  · by_cases hj : j = k
    · subst hj
      exact said_put_of_overridden h file value
    · exact said_congr rfl (FileSettings.get_put_of_ne hj _ _)
  · rw [FileSettings.camerasPath_put]
  · rw [FileSettings.cameras_put]

/-- A policy with a capital letter and blanks in the environment is the one of a file, whatever
else the file says. -/
theorem compose_put_policy :
    let clamping := FileSettings.none.put .policy (some Policy.clamp)
    let env := Overrides.none.put .policy (some " Strict\t")
    Policy.strict.IsSpelled " Strict\t" ∧
      compose .empty none clamping env false =
        compose .empty none (clamping.put .policy (some Policy.strict))
          (Overrides.none.put .policy none) false ∧
      compose .empty none (clamping.put .policy none) env false =
        compose .empty none clamping env false ∧
      (compose .empty none clamping env false).toOption.map (·.settings.policy) =
        some .strict := by
  intro clamping env
  have hspelled : Policy.strict.IsSpelled " Strict\t" :=
    ⟨[' '], ['S', 't', 'r', 'i', 'c', 't'], ['\t'], by simp,
      List.all_eq_true.1 (show [' '].all Text.isBlank = true from rfl),
      List.all_eq_true.1 (show ['\t'].all Text.isBlank = true from rfl), by decide⟩
  obtain ⟨hplace, -⟩ := compose_put .empty none clamping Overrides.none false .policy
  obtain ⟨-, hsilent⟩ := compose_put .empty none clamping env false .policy
  exact ⟨hspelled, hplace _ _ hspelled, hsilent _ rfl none, by decide +kernel⟩

end Settings

end CameraFleet
