import CameraFleet.Client
import CameraFleet.Proofs.Url.ReadBack
import CameraFleet.Proofs.Url.Route

/-!
# Routes on a base URL

A base URL is the text of a URL without the slashes at its end, and a route is put behind it as
text. What the two are read as is the URL with the route behind its path exactly where nothing
stands behind the path and the text that is left says what the URL said (`TakesRoutes`,
`joins_iff`). A query or a fragment takes the route up, and the path stays as it is
(`not_joins_of_tail`).
-/

namespace CameraFleet

/-- Whether routes can be put behind the text of a URL. Nothing stands behind its path, an authority
without a name is held by what is in the path, and a drive that stands first says so. -/
structure Url.TakesRoutes (u : Url) : Prop where
  query : u.query = none
  fragment : u.fragment = none
  authority : Kind.ofScheme u.scheme = .other → u.authority = some ⟨none, .domain "", none⟩ →
    ∃ c ∈ u.path.toList, c ≠ '/'
  drive : u.KeepsDrive

namespace Client

namespace BaseUrl

open Url

/-- Whether a route on a base URL is read as the URL with the route behind its path. -/
def Joins (base : BaseUrl) (u : Url) (route : Route) : Prop :=
  ∃ v, Url.ofText (base.join route.path) = .ok v ∧ v.scheme = u.scheme ∧
    v.authority = u.authority ∧ v.path = dropSlashes u.path ++ route.path

variable {u v : Url} {route : Route} {front slashes rest : List Char}

theorem joins_iff_of_ofText {base : BaseUrl} (h : Url.ofText (base.join route.path) = .ok v) :
    Joins base u route ↔ v.scheme = u.scheme ∧ v.authority = u.authority ∧
      v.path = dropSlashes u.path ++ route.path := by
  constructor
  · rintro ⟨w, hw, hparts⟩
    obtain rfl := Except.ok.inj (h.symm.trans hw)
    exact hparts
  · exact fun hparts => ⟨v, h, hparts⟩

theorem path_join (hcut : IsCut u.path.toList front slashes)
    (hpath : route.path.toList = '/' :: rest) :
    dropSlashes u.path ++ route.path = String.ofList (front ++ '/' :: rest) := by
  rw [hcut.dropSlashes_eq, ← hpath, String.ofList_append, String.ofList_toList]

/-- The text of a base URL with a route behind it. -/
theorem text_join
    (hcut : IsCut (bodyChars u.authority u.path ++ tailChars u.query u.fragment) front slashes)
    (hpath : route.path.toList = '/' :: rest) :
    join ⟨dropSlashes u.text⟩ route.path =
      String.ofList (u.scheme.toList ++ ':' :: (front ++ '/' :: rest)) := by
  have htext : IsCut u.text.toList (u.scheme.toList ++ [':'] ++ front) slashes := by
    rw [toList_text, ← List.singleton_append, ← List.append_assoc]
    exact hcut.append _ fun _ => by simp
  rw [join, htext.dropSlashes_eq, ← String.ofList_toList (s := route.path), hpath,
    ← String.ofList_append]
  simp only [List.append_assoc, List.cons_append, List.nil_append]

/-- Where the text in front of the path stays as it is, so does the URL, but for its drive. -/
theorem joins_iff_keepsDrive (hu : u.IsRead) (hnone : tailChars u.query u.fragment = [])
    (hcut : IsCut u.path.toList front slashes) (hpath : route.path.toList = '/' :: rest)
    (hroute : IsRoute rest) (before : List Char)
    (hbody : bodyChars u.authority u.path = before ++ u.path.toList)
    (hjoin : bodyChars u.authority (String.ofList (front ++ '/' :: rest)) =
      before ++ (front ++ '/' :: rest))
    (hlast : front = [] → before.getLast? ≠ some '/') :
    Joins ⟨dropSlashes u.text⟩ u route ↔ u.KeepsDrive := by
  have hnext := hu.body.join hcut hroute
  have hfull : IsCut (bodyChars u.authority u.path ++ tailChars u.query u.fragment)
      (before ++ front) slashes := by
    rw [hnone, List.append_nil, hbody]
    exact hcut.append before hlast
  have hread : Url.ofText (join ⟨dropSlashes u.text⟩ route.path) =
      .ok (settled ⟨u.scheme, u.authority, String.ofList (front ++ '/' :: rest), none, none⟩) := by
    have hspace : ((String.ofList (front ++ '/' :: rest)).toList ++ []).getLast? ≠ some ' ' := by
      rw [String.toList_ofList, List.append_nil]
      exact hroute.getLast?_ne_space front
    rw [text_join hfull hpath, List.append_assoc, ← hjoin,
      ← List.append_nil (bodyChars u.authority (String.ofList (front ++ '/' :: rest))),
      hnext.ofText_eq hu.scheme ⟨by simp, by simp⟩ hspace]
    rfl
  rw [joins_iff_of_ofText hread, path_join hcut hpath, ← keepsDrive_join hu.body hcut hroute,
    ← settled_eq_self_iff hnext]
  exact settled_eq_iff _

/-- A query or a fragment takes the route up. -/
theorem not_joins_of_tail (hu : u.IsRead) (htail : tailChars u.query u.fragment ≠ [])
    (hpath : route.path.toList = '/' :: rest) (hroute : IsRoute rest) :
    ¬Joins ⟨dropSlashes u.text⟩ u route := by
  obtain ⟨front, slashes, hcut⟩ := exists_isCut (tailChars u.query u.fragment)
  obtain ⟨hne, hnext⟩ := hu.tail.isTailText.join hcut htail hroute
  have hspace : (u.path.toList ++ (front ++ '/' :: rest)).getLast? ≠ some ' ' := by
    rw [← List.append_assoc]
    exact hroute.getLast?_ne_space _
  have hread : ∃ query fragment, Url.ofText (join ⟨dropSlashes u.text⟩ route.path) =
      .ok (settled ⟨u.scheme, u.authority, u.path, query, fragment⟩) := by
    rw [text_join (hcut.append _ fun h => absurd h hne) hpath, List.append_assoc,
      hu.body.ofText_eq hu.scheme hnext hspace]
    exact ⟨_, _, rfl⟩
  obtain ⟨query, fragment, hread⟩ := hread
  obtain ⟨pathFront, pathSlashes, hpathCut⟩ := exists_isCut u.path.toList
  obtain ⟨hlength, hlast⟩ :=
    settled_path (u := ⟨u.scheme, u.authority, u.path, query, fragment⟩) hu.body
  rw [joins_iff_of_ofText hread, path_join hpathCut hpath]
  rintro ⟨-, -, heq⟩
  simp only [heq, String.toList_ofList, List.length_append, List.length_cons] at hlength
  rw [heq, String.toList_ofList, hroute.getLast?_append] at hlast
  have hslash : u.path.toList.getLast? = some '/' := hpathCut.getLast?_of_lt (by omega)
  exact hroute.last (hlast hslash)

/-- A path with a route behind it looks like an authority if the path did. -/
theorem isPrefixOf_join {cs : List Char} (hcut : IsCut cs front slashes) (hroute : IsRoute rest)
    (h : ¬(front = [] ∧ ['/', '/'].isPrefixOf cs = true)) :
    ['/', '/'].isPrefixOf (front ++ '/' :: rest) = ['/', '/'].isPrefixOf cs := by
  rcases front with _ | ⟨c, _ | ⟨d, front⟩⟩
  · have hhead := hroute.head
    rw [Bool.eq_false_iff.2 fun hbegins => h ⟨rfl, hbegins⟩]
    rcases rest with _ | ⟨c, rest⟩
    · rfl
    · have hc : c ≠ '/' := fun heq => hhead (by rw [heq]; rfl)
      simp [List.isPrefixOf, hc.symm]
  · have hc : c ≠ '/' := fun heq => hcut.last (by rw [heq]; rfl)
    rw [hcut.eq]
    simp [List.isPrefixOf, hc.symm]
  · rw [hcut.eq]
    simp [List.isPrefixOf]

theorem joins_iff_of_none (hu : u.IsRead) (hnone : tailChars u.query u.fragment = [])
    (hauthority : u.authority = none) (hpath : route.path.toList = '/' :: rest)
    (hroute : IsRoute rest) : Joins ⟨dropSlashes u.text⟩ u route ↔ u.KeepsDrive := by
  obtain ⟨front, slashes, hcut⟩ := exists_isCut u.path.toList
  by_cases hslashes : front = [] ∧ ['/', '/'].isPrefixOf u.path.toList = true
  · have hother := (hauthority ▸ hu.body).other_of_none
    obtain ⟨rfl, hbegins⟩ := hslashes
    have hfull : IsCut (bodyChars u.authority u.path ++ tailChars u.query u.fragment) ['/', '.']
        slashes := by
      rw [hnone, List.append_nil, hauthority, bodyChars]
      simp only [hbegins, if_true]
      exact hcut.append ['/', '.'] fun _ => by decide
    have hdots : ∀ c ∈ ['/', '.'], ' ' ≤ c ∧ isTail c = false := List.all_iff_forall_prop.1 rfl
    have hread : Url.ofText (join ⟨dropSlashes u.text⟩ route.path) =
        .ok ⟨u.scheme, none, String.ofList ('/' :: rest), none, none⟩ := by
      rw [text_join hfull hpath, hroute.ofText_eq hu.scheme ['/', '.'] hdots]
      exact ofParts_here hother (hroute.isPath .other) []
    rw [joins_iff_of_ofText hread, path_join hcut hpath]
    refine iff_of_true ⟨rfl, hauthority.symm, rfl⟩ fun hfile => ?_
    rw [hfile] at hother
    contradiction
  · refine joins_iff_keepsDrive hu hnone hcut hpath hroute
      (if ['/', '/'].isPrefixOf u.path.toList then ['/', '.'] else []) ?_ ?_ ?_
    · rw [hauthority, bodyChars]
    · rw [hauthority, bodyChars, String.toList_ofList]
      simp only [isPrefixOf_join hcut hroute hslashes]
    · intro hfront
      rw [if_neg fun hbegins => hslashes ⟨hfront, hbegins⟩]
      simp

/-- Behind an authority without a name, a path of slashes leaves nothing but the scheme. Only to a
file this says that there is no host. -/
theorem joins_iff_of_nameless (hu : u.IsRead) (hnone : tailChars u.query u.fragment = [])
    (hauthority : u.authority = some ⟨none, .domain "", none⟩)
    (hspecial : Kind.ofScheme u.scheme ≠ .special) (hslashes : ∀ c ∈ u.path.toList, c = '/')
    (hpath : route.path.toList = '/' :: rest) (hroute : IsRoute rest) :
    Joins ⟨dropSlashes u.text⟩ u route ↔ Kind.ofScheme u.scheme = .file := by
  have hcut : IsCut u.path.toList [] u.path.toList := ⟨rfl, hslashes, by simp⟩
  have hfull : IsCut (bodyChars u.authority u.path ++ tailChars u.query u.fragment) []
      ('/' :: '/' :: u.path.toList) := by
    rw [hnone, List.append_nil, hauthority]
    refine ⟨rfl, ?_, by simp⟩
    simp only [List.forall_mem_cons]
    exact ⟨trivial, trivial, hslashes⟩
  have hread := hroute.ofText_eq hu.scheme [] (by simp)
  rw [← text_join hfull hpath, List.nil_append] at hread
  rcases hkind : Kind.ofScheme u.scheme with _ | _ | _
  · exact absurd hkind hspecial
  · have hsettle := (hroute.isPath .file).settle_eq_self fun _ => hroute.drive
    have hfile := eq_file_of_kind hkind
    rw [hfile, ofParts_file_rooted (hroute.isPath .file), hsettle] at hread
    rw [joins_iff_of_ofText hread, path_join hcut hpath, hauthority]
    exact iff_of_true ⟨hfile.symm, rfl, rfl⟩ rfl
  · rw [ofParts_slash hkind (hroute.isPath .other) hroute.head] at hread
    rw [joins_iff_of_ofText hread, hauthority]
    exact iff_of_false (fun h => by simp at h) (by decide)

/-- The end of an authority is no slash. -/
theorem getLast?_authority (hu : u.IsRead) {a : Authority} (hauthority : u.authority = some a)
    (htext : a.text.toList ≠ []) : ('/' :: '/' :: a.text.toList).getLast? ≠ some '/' := by
  rw [List.getLast?_cons_cons, ← List.singleton_append, List.getLast?_append_of_ne_nil _ htext]
  intro hlast
  have hinner := hu.body.chars.2 a hauthority '/' (List.mem_of_getLast? hlast)
  exact absurd hinner (by decide)

/-- Routes on the text of a URL that has been read. -/
theorem joins_iff_takesRoutes (hu : u.IsRead) (route : Route) :
    Joins ⟨dropSlashes u.text⟩ u route ↔ u.TakesRoutes := by
  obtain ⟨rest, hpath, hroute⟩ := isRoute_path route
  by_cases hnone : tailChars u.query u.fragment = []
  swap
  · refine iff_of_false (not_joins_of_tail hu hnone hpath hroute) fun h => hnone ?_
    exact tailChars_eq_nil_iff.2 ⟨h.query, h.fragment⟩
  obtain ⟨hquery, hfragment⟩ := tailChars_eq_nil_iff.1 hnone
  obtain ⟨front, slashes, hcut⟩ := exists_isCut u.path.toList
  rcases hauthority : u.authority with _ | a
  · rw [joins_iff_of_none hu hnone hauthority hpath hroute]
    refine ⟨fun h => ⟨hquery, hfragment, fun _ hsome => ?_, h⟩, (·.drive)⟩
    rw [hauthority] at hsome
    contradiction
  by_cases hempty : front = [] ∧ a.text.toList = []
  · obtain ⟨rfl, htext⟩ := hempty
    obtain ⟨hspecial, rfl⟩ := (hauthority ▸ hu.body).eq_of_text htext
    rw [joins_iff_of_nameless hu hnone hauthority hspecial hcut.forall_eq hpath hroute]
    constructor
    · refine fun hfile => ⟨hquery, hfragment, fun hother => ?_, keepsDrive_of_forall hcut.forall_eq⟩
      exact absurd (hfile.symm.trans hother) (by decide)
    · intro htakes
      rcases hkind : Kind.ofScheme u.scheme with _ | _ | _
      · exact absurd hkind hspecial
      · rfl
      · obtain ⟨c, hc, hne⟩ := htakes.authority hkind hauthority
        exact absurd (hcut.forall_eq c hc) hne
  · have hlast (hfront : front = []) : ('/' :: '/' :: a.text.toList).getLast? ≠ some '/' :=
      getLast?_authority hu hauthority fun htext => hempty ⟨hfront, htext⟩
    rw [joins_iff_keepsDrive hu hnone hcut hpath hroute ('/' :: '/' :: a.text.toList)
      (by rw [hauthority]; rfl) (by rw [hauthority, bodyChars, String.toList_ofList]) hlast]
    refine ⟨fun h => ⟨hquery, hfragment, fun _ hsome => ?_, h⟩, (·.drive)⟩
    obtain rfl := Option.some.inj (hauthority.symm.trans hsome)
    exact hcut.exists_ne_of_ne_nil fun hfront => hempty ⟨hfront, rfl⟩

end BaseUrl

/-- Whatever text a client takes as base URL, its routes are read as the URL with the route behind
its path exactly where this URL takes routes. -/
theorem joins_iff {s : String} {c : Client} (h : Client.ofText s = .ok c) :
    ∃ u, Url.ofText (Text.trim s) = .ok u ∧ ∀ route, c.base.Joins u route ↔ u.TakesRoutes := by
  unfold Client.ofText BaseUrl.ofText at h
  rcases hread : Url.ofText (Text.trim s) with e | u
  · rw [hread] at h
    contradiction
  · rw [hread] at h
    obtain rfl := Except.ok.inj h
    exact ⟨u, rfl, BaseUrl.joins_iff_takesRoutes (Url.isRead_of_ofText hread)⟩

theorem joins_iff_gateway : ∃ c u, Client.ofText " http://gateway/cams/ " = .ok c ∧
    Url.ofText (Text.trim " http://gateway/cams/ ") = .ok u ∧ ∀ route, c.base.Joins u route := by
  have hclient : Client.ofText " http://gateway/cams/ " = .ok ⟨⟨"http://gateway/cams"⟩⟩ := by
    decide +kernel
  have hurl : Url.ofText (Text.trim " http://gateway/cams/ ") =
      .ok ⟨"http", some ⟨none, .domain "gateway", none⟩, "/cams/", none, none⟩ := by
    decide +kernel
  obtain ⟨u, hu, hjoins⟩ := joins_iff hclient
  obtain rfl := Except.ok.inj (hurl.symm.trans hu)
  exact ⟨_, _, hclient, hurl, fun route => (hjoins route).2
    ⟨rfl, rfl, fun hother => absurd hother (by decide), fun hfile => absurd hfile (by decide)⟩⟩

theorem not_joins_of_query : ∃ c u, Client.ofText "http://gateway/cams?site=1" = .ok c ∧
    Url.ofText (Text.trim "http://gateway/cams?site=1") = .ok u ∧
    c.base.join Route.ping.path = "http://gateway/cams?site=1/ping" ∧
    Url.ofText "http://gateway/cams?site=1/ping" = .ok { u with query := some "site=1/ping" } ∧
    ¬c.base.Joins u .ping := by
  have hread : Url.ofText "http://gateway/cams?site=1/ping" =
      .ok ⟨"http", some ⟨none, .domain "gateway", none⟩, "/cams", some "site=1/ping", none⟩ := by
    decide +kernel
  refine ⟨⟨⟨"http://gateway/cams?site=1"⟩⟩,
    ⟨"http", some ⟨none, .domain "gateway", none⟩, "/cams", some "site=1", none⟩,
    by decide +kernel, by decide +kernel, by decide +kernel, hread, ?_⟩
  have hjoin : BaseUrl.join ⟨"http://gateway/cams?site=1"⟩ Route.ping.path =
      "http://gateway/cams?site=1/ping" := by decide +kernel
  rw [BaseUrl.joins_iff_of_ofText (hjoin ▸ hread)]
  decide +kernel

end Client

end CameraFleet
