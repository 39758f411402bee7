import CameraFleet.Client
import CameraFleet.Proofs.Url.Route
import CameraFleet.Service

/-!
# Clients of a whole server

A client is rooted if its base URL is a server and nothing behind it, so that the requests for a
route go to the path of the route (`IsRooted`). Plain HTTP to a host and a port is rooted, whatever
the host and the port are (`isRooted_of_host`). A service in the same process answers every request
(`exchange_link`).
-/

namespace CameraFleet

namespace Url

variable {front : List Char} {a : Authority}

/-- Plain HTTP to a server with the path of a route behind it is read as this. -/
theorem ofText_route (hfront : ∀ c ∈ front, IsInner c)
    (hread : readAuthority .special "http" front = .ok (a, [])) (route : Route) :
    ofText ("http://" ++ String.ofList front ++ route.path) =
      .ok ⟨"http", some a, route.path, none, none⟩ := by
  obtain ⟨rest, hpath, hroute⟩ := isRoute_path route
  have hscheme : IsScheme "http" :=
    ⟨⟨'h', ['t', 't', 'p'], rfl, rfl⟩, List.all_iff_forall_prop.1 rfl, rfl⟩
  have htext : "http://" ++ String.ofList front ++ route.path =
      String.ofList ("http".toList ++ ':' :: ('/' :: '/' :: front ++ '/' :: rest)) := by
    rw [← hpath]
    simp [← String.toList_inj]
  have hbefore : ∀ c ∈ '/' :: '/' :: front, ' ' ≤ c ∧ isTail c = false := by
    rw [List.forall_mem_cons, List.forall_mem_cons]
    exact ⟨by decide, by decide, fun c hc => ⟨(hfront c hc).le.1, (hfront c hc).2.1⟩⟩
  have hempty : readAuthority .special "http" [] = .error .emptyHost ∧
      readAuthority .special "http" ['@'] = .error .emptyHost := ⟨rfl, rfl⟩
  have hnil : front ≠ [] := by
    rintro rfl
    rw [hempty.1] at hread
    exact absurd hread (by simp)
  have hat : front ≠ ['@'] := by
    rintro rfl
    rw [hempty.2] at hread
    exact absurd hread (by simp)
  have hbehind : pathBehind .special ('/' :: rest) = route.path := by
    rw [(hroute.isPath .special).pathBehind_eq, (hroute.isPath .special).settle_eq_self (by simp),
      ← hpath, String.ofList_toList]
  rw [htext, hroute.ofText_eq hscheme _ hbefore, List.cons_append, List.cons_append,
    ofParts_special rfl hfront hnil, withAuthority_eq hfront hread hat fun _ => isSlash_of_head,
    hbehind]
  rfl

theorem exists_readPort (scheme : String) (port : UInt16) :
    ∃ p, readPort scheme (Natural.digits port.toNat) = .ok (p, []) := by
  have hdigits : ∀ c ∈ Natural.digits port.toNat, c.isDigit = true :=
    fun _ => Natural.isDigit_of_mem_digits
  have hport := port.toNat_lt
  unfold readPort
  simp only [List.takeWhile_eq_self_iff.2 hdigits, List.dropWhile_eq_nil_iff.2 hdigits,
    Natural.ofDigitChars_digits]
  rw [if_neg (by simp; omega)]
  split_ifs
  · exact ⟨_, rfl⟩
  · exact ⟨_, rfl⟩

theorem readAuthority_host {host : List Char} {h : Host} (hhost : Host.special host = .ok h)
    (hname : h ≠ .domain "") (hchars : ∀ c ∈ host, c ≠ ':' ∧ c ≠ '[' ∧ c ≠ '@') (port : UInt16) :
    ∃ p, readAuthority .special "http" (host ++ ':' :: Natural.digits port.toNat) =
      .ok (⟨none, h, p⟩, []) := by
  obtain ⟨p, hp⟩ := exists_readPort "http" port
  have hat : '@' ∉ host ++ ':' :: Natural.digits port.toNat := by
    simp only [List.mem_append, List.mem_cons, not_or]
    exact ⟨fun hc => (hchars '@' hc).2.2 rfl, by decide,
      fun hc => absurd (Natural.isDigit_of_mem_digits hc) (by decide)⟩
  have hcut : cutHost false (host ++ ':' :: Natural.digits port.toNat) =
      (host, some (Natural.digits port.toNat)) := by
    rw [cutHost_plain fun c hc => ⟨(hchars c hc).1, (hchars c hc).2.1⟩]
    exact congrArg (·, _) (List.append_nil host)
  refine ⟨p, ?_⟩
  rw [readAuthority_eq, placeOf_of_not_mem hat, userOf_of_not_mem hat, hcut, readHost,
    if_neg (by decide), hhost]
  simp only [withPlace, hname, false_and, if_false, hp]

end Url

namespace Client

/-- What the client asks for on a route is the path of the route. -/
def IsRooted (c : Client) : Prop :=
  ∀ route, c.target? route none = some route.path

/-- A request over a link to a service in this process is always answered. -/
theorem exchange_link {α : Type} (now : String) (request : Http.Request)
    (read : Http.Response → Except Error α) (s : Service) :
    exchange (Service.link now) (some request) read s =
      (read (s.respond now request).1, (s.respond now request).2) := rfl

theorem isRooted_of_authority {front : List Char} {a : Url.Authority}
    (hfront : ∀ c ∈ front, Url.IsInner c)
    (hread : Url.readAuthority .special "http" front = .ok (a, [])) :
    IsRooted ⟨⟨"http://" ++ String.ofList front⟩⟩ := by
  intro route
  have hurl := Url.ofText_route hfront hread route
  simp only [target?, BaseUrl.join, hurl, true_or, if_true, target, Option.map_none,
    Option.getD_none, String.append_empty]

theorem isRooted_of_host {host : List Char} {h : Url.Host} (hhost : Url.Host.special host = .ok h)
    (hname : h ≠ .domain "") (hchars : ∀ c ∈ host, Url.IsInner c ∧ c ≠ ':' ∧ c ≠ '[' ∧ c ≠ '@')
    (port : UInt16) :
    IsRooted ⟨⟨"http://" ++ String.ofList (host ++ ':' :: Natural.digits port.toNat)⟩⟩ := by
  obtain ⟨p, hread⟩ := Url.readAuthority_host hhost hname (fun c hc => (hchars c hc).2) port
  refine isRooted_of_authority (fun c hc => ?_) hread
  rcases List.mem_append.1 hc with hc | hc
  · exact (hchars c hc).1
  · rcases List.mem_cons.1 hc with rfl | hc
    · decide
    · exact (Url.isInner_of_isDigit (Natural.isDigit_of_mem_digits hc)).1

theorem isRooted_localhost (port : UInt16) :
    IsRooted ⟨⟨"http://" ++ String.ofList ("localhost".toList ++ ':' ::
      Natural.digits port.toNat)⟩⟩ := by
  have hhost : Url.Host.special "localhost".toList = .ok (.domain "localhost") := by
    decide +kernel
  have hchars : "localhost".toList.all
      (fun c => decide (Url.IsInner c ∧ c ≠ ':' ∧ c ≠ '[' ∧ c ≠ '@')) = true := rfl
  exact isRooted_of_host hhost (by decide)
    (fun c hc => of_decide_eq_true (List.all_eq_true.1 hchars c hc)) port

end Client

end CameraFleet
