import CameraFleet.Client.BaseUrl
import CameraFleet.Proofs.Url.Parts
import CameraFleet.Route

/-!
# Routes behind the path of a URL

The path of a URL is cut in front of the slashes at its end (`IsCut`), and what stands behind the
first slash of a route (`IsRoute`) is put behind them. From the path of a body this makes the path
of a body again (`IsBody.join`). Read back it stays as it is, unless it begins with a drive that was
none when it was read (`KeepsDrive`, `settled_eq_self_iff`).
-/

namespace CameraFleet

namespace Url

/-! ## Slashes at the end -/

/-- A text that is cut in front of the slashes at its end. -/
structure IsCut (cs front slashes : List Char) : Prop where
  eq : cs = front ++ slashes
  slashes : ∀ c ∈ slashes, c = '/'
  last : front.getLast? ≠ some '/'

namespace IsCut

variable {cs front slashes : List Char}

theorem append (h : IsCut cs front slashes) (before : List Char)
    (hbefore : front = [] → before.getLast? ≠ some '/') :
    IsCut (before ++ cs) (before ++ front) slashes := by
  refine ⟨by rw [h.eq, List.append_assoc], h.slashes, ?_⟩
  by_cases hfront : front = []
  · rw [hfront, List.append_nil]
    exact hbefore hfront
  · rw [List.getLast?_append_of_ne_nil _ hfront]
    exact h.last

theorem forall_eq (h : IsCut cs [] slashes) : ∀ c ∈ cs, c = '/' := by
  rw [h.eq, List.nil_append]
  exact h.slashes

theorem exists_ne_of_ne_nil (h : IsCut cs front slashes) (hne : front ≠ []) :
    ∃ c ∈ cs, c ≠ '/' := by
  refine ⟨front.getLast hne, h.eq ▸ List.mem_append_left _ (List.getLast_mem hne), fun heq => ?_⟩
  exact h.last (by rw [List.getLast?_eq_some_getLast hne, heq])

theorem getLast?_of_lt (h : IsCut cs front slashes) (hlength : front.length < cs.length) :
    cs.getLast? = some '/' := by
  rcases slashes.eq_nil_or_concat with rfl | ⟨before, c, rfl⟩
  · rw [h.eq, List.append_nil] at hlength
    exact absurd hlength (lt_irrefl _)
  · obtain rfl := h.slashes c (by simp)
    rw [h.eq, List.concat_eq_append, ← List.append_assoc, List.getLast?_concat]

theorem dropSlashes_eq {s : String} (h : IsCut s.toList front slashes) :
    Client.BaseUrl.dropSlashes s = String.ofList front := by
  have hslashes : ∀ c ∈ slashes.reverse, decide (c = '/') = true := fun c hc =>
    decide_eq_true (h.slashes c (List.mem_reverse.1 hc))
  have hlast : ∀ c, front.reverse.head? = some c → decide (c = '/') = false := by
    intro c hc
    rw [List.head?_reverse] at hc
    exact decide_eq_false fun heq => h.last (heq ▸ hc)
  rw [Client.BaseUrl.dropSlashes, h.eq, List.reverse_append,
    Text.dropWhile_append_of_all hslashes hlast, List.reverse_reverse]

end IsCut

theorem exists_isCut (cs : List Char) : ∃ front slashes, IsCut cs front slashes := by
  refine ⟨(cs.reverse.dropWhile (· = '/')).reverse, (cs.reverse.takeWhile (· = '/')).reverse,
    ?_, ?_, ?_⟩
  · rw [← List.reverse_append, List.takeWhile_append_dropWhile, List.reverse_reverse]
  · intro c hc
    simpa using List.mem_takeWhile_imp (List.mem_reverse.1 hc)
  · rw [List.getLast?_reverse]
    intro hhead
    have hnot := List.head?_dropWhile_not (fun c : Char => decide (c = '/')) cs.reverse
    rw [hhead] at hnot
    simp at hnot

/-! ## Routes -/

/-- What stands behind the first slash of a route. -/
structure IsRoute (rest : List Char) : Prop where
  segments : ∀ kind, ∀ piece ∈ Text.splitOn '/' rest, IsSegment kind piece
  head : rest.head? ≠ some '/'
  last : ('/' :: rest).getLast? ≠ some '/'
  drive : isDrive (firstSegment rest) = false

theorem isSegment_of_forall (kind : Kind) {cs : List Char} (hne : cs ≠ [])
    (h : ∀ c ∈ cs, isKept pathEscaped c = true ∧ c ∉ ['/', '\\', '.', '%']) :
    IsSegment kind cs := by
  refine ⟨fun c hc => ⟨(h c hc).1, ?_⟩, ?_⟩
  · have hnone := (h c hc).2
    simp only [List.mem_cons, not_or] at hnone
    simp [Kind.isSlash, hnone.1, hnone.2.1]
  · by_contra hdots
    have hsigns : '.' ∈ ['/', '\\', '.', '%'] ∧ '%' ∈ ['/', '\\', '.', '%'] := by decide
    cases areDots_of_ofSegment? hdots with
    | nil => exact hne rfl
    | dot _ => exact (h '.' List.mem_cons_self).2 hsigns.1
    | escape _ _ => exact (h '%' List.mem_cons_self).2 hsigns.2

theorem isRoute_path (route : Route) :
    ∃ rest, route.path.toList = '/' :: rest ∧ IsRoute rest := by
  have hpath : route.path.toList = '/' :: route.path.toList.tail := by cases route <;> rfl
  have hsegments : (Text.splitOn '/' route.path.toList.tail).all (fun piece =>
      decide (piece ≠ []) &&
        piece.all fun c => isKept pathEscaped c && decide (c ∉ ['/', '\\', '.', '%'])) = true := by
    cases route <;> decide +kernel
  refine ⟨_, hpath, fun kind piece hpiece => ?_, ?_, ?_, ?_⟩
  · obtain ⟨hne, hchars⟩ := Bool.and_eq_true_iff.1 (List.all_eq_true.1 hsegments piece hpiece)
    refine isSegment_of_forall kind (of_decide_eq_true hne) fun c hc => ?_
    obtain ⟨hkept, hnone⟩ := Bool.and_eq_true_iff.1 (List.all_eq_true.1 hchars c hc)
    exact ⟨hkept, of_decide_eq_true hnone⟩
  all_goals cases route <;> decide +kernel

variable {kind : Kind} {p front slashes rest : List Char}

namespace IsRoute

theorem isPath (h : IsRoute rest) (kind : Kind) : IsPath kind rest :=
  ⟨h.segments kind, fun _ => h.head⟩

theorem le (h : IsRoute rest) : ∀ c ∈ '/' :: rest, ' ' ≤ c ∧ c ≠ ' ' ∧ isTail c = false := by
  rw [List.forall_mem_cons]
  exact ⟨by decide, (h.isPath .other).le⟩

theorem isVisible (h : IsRoute rest) : ∀ c ∈ '/' :: rest, Host.isVisible c = true := by
  rw [List.forall_mem_cons]
  refine ⟨by decide, fun c hc => ?_⟩
  rcases (h.isPath .other).mem hc with rfl | ⟨hkept, -⟩
  · decide
  · exact (isVisible_of_isKept hkept).1

theorem getLast?_append (_ : IsRoute rest) (cs : List Char) :
    (cs ++ '/' :: rest).getLast? = ('/' :: rest).getLast? :=
  List.getLast?_append_of_ne_nil _ (List.cons_ne_nil _ _)

theorem getLast?_ne_space (h : IsRoute rest) (cs : List Char) :
    (cs ++ '/' :: rest).getLast? ≠ some ' ' := by
  rw [h.getLast?_append]
  exact fun hspace => (h.le ' ' (List.mem_of_getLast? hspace)).2.1 rfl

/-- A route behind the beginning of a body is read with it. -/
theorem ofText_eq (h : IsRoute rest) {scheme : String} (hscheme : IsScheme scheme)
    (before : List Char) (hbefore : ∀ c ∈ before, ' ' ≤ c ∧ isTail c = false) :
    Url.ofText (String.ofList (scheme.toList ++ ':' :: (before ++ '/' :: rest))) =
      ofParts scheme (before ++ '/' :: rest) [] := by
  have hbody : ∀ c ∈ before ++ '/' :: rest, ' ' ≤ c ∧ isTail c = false := by
    simp only [List.forall_mem_append]
    exact ⟨hbefore, fun c hc => ⟨(h.le c hc).1, (h.le c hc).2.2⟩⟩
  have hspace : (before ++ '/' :: rest ++ []).getLast? ≠ some ' ' := by
    rw [List.append_nil]
    exact h.getLast?_ne_space before
  have hend : IsTailText [] := ⟨by simp, by simp⟩
  have hread := ofText_eq_ofParts hscheme hbody hend hspace
  rwa [List.append_nil] at hread

end IsRoute

/-- A route behind a query or a fragment stays in it. -/
theorem IsTailText.join {cs : List Char} (h : IsTailText cs) (hcut : IsCut cs front slashes)
    (hne : cs ≠ []) (hroute : IsRoute rest) :
    front ≠ [] ∧ IsTailText (front ++ '/' :: rest) := by
  have hfront : front ≠ [] := by
    rintro rfl
    obtain ⟨c, cs, rfl⟩ := List.exists_cons_of_ne_nil hne
    have hc := h.head c rfl
    rw [hcut.forall_eq c List.mem_cons_self] at hc
    contradiction
  refine ⟨hfront, fun c hc => h.head c ?_, ?_⟩
  · rwa [hcut.eq, List.head?_append_of_ne_nil _ hfront, ← List.head?_append_of_ne_nil _ hfront]
  · simp only [List.forall_mem_append]
    exact ⟨fun c hc => h.le c (hcut.eq ▸ List.mem_append_left _ hc),
      fun c hc => (hroute.le c hc).1⟩

/-! ## Paths with a route behind them -/

theorem mem_splitOn_append {piece : List Char} (hslashes : ∀ c ∈ slashes, c = '/')
    (h : piece ∈ Text.splitOn '/' front) : piece ∈ Text.splitOn '/' (front ++ slashes) := by
  rcases slashes with _ | ⟨c, slashes⟩
  · rwa [List.append_nil]
  · obtain rfl := hslashes c List.mem_cons_self
    rw [Text.splitOn_append]
    exact List.mem_append_left _ h

/-- The first segment ends at the next slash. -/
theorem firstSegment_append_of_head (front : List Char) {behind : List Char}
    (h : ∀ c, behind.head? = some c → c = '/') :
    firstSegment (front ++ behind) = firstSegment front := by
  induction front with
  | nil =>
    rcases behind with _ | ⟨c, behind⟩
    · rfl
    · obtain rfl := h c rfl
      rfl
  | cons c front ih =>
    unfold firstSegment at ih ⊢
    rw [List.cons_append, List.takeWhile_cons, List.takeWhile_cons, ih]

theorem firstSegment_of_forall (h : ∀ c ∈ p, c = '/') : firstSegment p = [] := by
  rcases p with _ | ⟨c, p⟩
  · rfl
  · obtain rfl := h c List.mem_cons_self
    rfl

/-- A route behind a path makes a path, with the same drive in front where there is one. -/
theorem IsPath.join (hp : IsPath kind p) (hcut : IsCut ('/' :: p) front slashes)
    (hroute : IsRoute rest) : ∃ q, front ++ '/' :: rest = '/' :: q ∧ IsPath kind q ∧
      (firstSegment q = firstSegment p ∨
        isDrive (firstSegment q) = false ∧ isDrive (firstSegment p) = false) := by
  rcases front with _ | ⟨c, front⟩
  · have hfirst : firstSegment p = [] :=
      firstSegment_of_forall (List.forall_mem_cons.1 hcut.forall_eq).2
    exact ⟨rest, rfl, hroute.isPath kind, .inr ⟨hroute.drive, by rw [hfirst]; rfl⟩⟩
  · have heq : '/' :: p = c :: (front ++ slashes) := hcut.eq
    obtain ⟨rfl, rfl⟩ := List.cons.inj heq
    have hne : front ≠ [] := by
      rintro rfl
      exact hcut.last rfl
    obtain ⟨d, front', rfl⟩ := List.exists_cons_of_ne_nil hne
    refine ⟨d :: front' ++ '/' :: rest, rfl, ⟨?_, hp.noSlash⟩, .inl ?_⟩
    · rw [Text.splitOn_append]
      simp only [List.forall_mem_append]
      exact ⟨fun piece hpiece => hp.segments piece (mem_splitOn_append hcut.slashes hpiece),
        hroute.segments kind⟩
    · rw [firstSegment_append_of_head _ (by simp), firstSegment_append_of_head]
      exact fun c hc => hcut.slashes c (List.mem_of_mem_head? hc)

/-- A route behind the path of a body makes a body. -/
theorem IsBody.join {scheme path : String} {authority : Option Authority}
    (h : IsBody scheme authority path) (hcut : IsCut path.toList front slashes)
    (hroute : IsRoute rest) : IsBody scheme authority (String.ofList (front ++ '/' :: rest)) := by
  cases h with
  | network hkind ha hp =>
    rw [String.toList_ofList] at hcut
    obtain ⟨q, hq, hpath, -⟩ := hp.join hcut hroute
    rw [hq]
    exact .network hkind ha hpath
  | bare hkind ha =>
    obtain ⟨rfl, -⟩ := List.append_eq_nil_iff.1 hcut.eq.symm
    exact .network (by simp [hkind]) (hkind ▸ ha) (hroute.isPath _)
  | file hkind hh hp =>
    rw [String.toList_ofList] at hcut
    obtain ⟨q, hq, hpath, -⟩ := hp.join hcut hroute
    rw [hq]
    exact .file hkind hh hpath
  | rooted hkind hp =>
    rw [String.toList_ofList] at hcut
    obtain ⟨q, hq, hpath, -⟩ := hp.join hcut hroute
    rw [hq]
    exact .rooted hkind hpath
  | flat hkind hp hhead =>
    rw [String.toList_ofList] at hcut
    rcases front with _ | ⟨c, front⟩
    · exact .rooted hkind (hroute.isPath .other)
    · refine .flat hkind ?_ ?_
      · simp only [List.forall_mem_append]
        exact ⟨fun d hd => hp d (hcut.eq ▸ List.mem_append_left _ hd),
          fun d hd => ⟨hroute.isVisible d hd, (hroute.le d hd).2.2⟩⟩
      · rw [hcut.eq] at hhead
        exact hhead

/-! ## Drives -/

/-- Whether a drive that stands first in the path of a file is written with a colon, and has no host
in front of it. -/
def KeepsDrive (u : Url) : Prop :=
  u.scheme = "file" → isDrive (firstSegment (u.path.toList.drop 1)) = true →
    u.authority = some ⟨none, .domain "", none⟩ ∧ ':' ∈ firstSegment (u.path.toList.drop 1)

theorem settle_eq_self_iff (hdrive : isDrive (firstSegment p) = true) :
    settle .file p = p ↔ ':' ∈ firstSegment p := by
  have hp := firstSegment_append p
  unfold settle
  generalize p.dropWhile (· ≠ '/') = behind at hp ⊢
  generalize firstSegment p = first at hp hdrive ⊢
  subst hp
  rw [List.append_left_inj]
  rcases first with _ | ⟨c, _ | ⟨d, _ | _⟩⟩
  · contradiction
  · contradiction
  · have hc : c ≠ ':' := by
      rintro rfl
      contradiction
    rw [segment, if_pos ⟨rfl, rfl, hdrive⟩]
    simp [hc.symm, eq_comm]
  · contradiction

theorem IsBody.exists_of_file {scheme path : String} {authority : Option Authority}
    (h : IsBody scheme authority path) (hkind : Kind.ofScheme scheme = .file) :
    ∃ p, path = String.ofList ('/' :: p) ∧ IsPath .file p := by
  cases h with
  | network hnot _ _ => exact absurd hkind hnot
  | bare hnot _ => exact absurd (hnot.symm.trans hkind) (by decide)
  | file _ _ hp => exact ⟨_, rfl, hp⟩
  | rooted hnot _ => exact absurd (hnot.symm.trans hkind) (by decide)
  | flat hnot _ _ => exact absurd (hnot.symm.trans hkind) (by decide)

/-- A URL is read back as it is exactly if it keeps its drive. -/
theorem settled_eq_self_iff {u : Url} (h : IsBody u.scheme u.authority u.path) :
    u.settled = u ↔ u.KeepsDrive := by
  by_cases hdrive : u.scheme = "file" ∧ isDrive (firstSegment (u.path.toList.drop 1)) = true
  · obtain ⟨scheme, authority, path, query, fragment⟩ := u
    obtain ⟨rfl, hdrive⟩ := hdrive
    obtain ⟨p, rfl, -⟩ := h.exists_of_file rfl
    simp only [String.toList_ofList, List.drop_one, List.tail_cons] at hdrive
    simp only [settled, KeepsDrive, String.toList_ofList, List.drop_one, List.tail_cons, hdrive,
      and_self, if_true, forall_const, Url.mk.injEq, true_and, and_true, String.ofList_inj,
      List.cons.injEq, settle_eq_self_iff hdrive, eq_comm (b := authority)]
  · rw [settled, if_neg hdrive]
    exact iff_of_true rfl fun hfile hfirst => absurd ⟨hfile, hfirst⟩ hdrive

theorem IsBody.other_of_none {scheme path : String} (h : IsBody scheme none path) :
    Kind.ofScheme scheme = .other := by
  cases h with
  | rooted hkind _ => exact hkind
  | flat hkind _ _ => exact hkind

/-- Only an authority without a name has no text. -/
theorem Authority.IsRead.eq_of_text {kind : Kind} {scheme : String} {a : Authority}
    (h : a.IsRead kind scheme) (htext : a.text.toList = []) :
    kind = .other ∧ a = ⟨none, .domain "", none⟩ := by
  rw [a.toList_text, List.append_eq_nil_iff, Authority.placeText, List.append_eq_nil_iff] at htext
  have hread := h.readHost_eq
  rw [htext.2.1] at hread
  cases kind with
  | special => contradiction
  | file => contradiction
  | other =>
    have hhost : Host.domain "" = a.host := Except.ok.inj hread
    obtain ⟨huser, hport⟩ := h.empty hhost.symm
    obtain ⟨user, host, port⟩ := a
    exact ⟨rfl, by rw [show user = none from huser, ← show _ = host from hhost,
      show port = none from hport]⟩

theorem IsBody.eq_of_text {scheme path : String} {a : Authority} (h : IsBody scheme (some a) path)
    (htext : a.text.toList = []) :
    Kind.ofScheme scheme ≠ .special ∧ a = ⟨none, .domain "", none⟩ := by
  cases h with
  | network _ ha _ =>
    obtain ⟨hother, heq⟩ := ha.eq_of_text htext
    exact ⟨by simp [hother], heq⟩
  | bare hkind ha => exact ⟨by simp [hkind], (ha.eq_of_text htext).2⟩
  | file hkind hh hp =>
    rename_i host p
    have hhost : host.text.toList = [] := by simpa [Authority.text] using htext
    have hempty := (fileHost_text hh).1
    rw [hhost] at hempty
    obtain rfl := Except.ok.inj hempty
    exact ⟨by simp [hkind], rfl⟩

theorem settled_eq_iff (u : Url) : (u.settled.scheme = u.scheme ∧
    u.settled.authority = u.authority ∧ u.settled.path = u.path) ↔ u.settled = u := by
  have hrest : u.settled.query = u.query ∧ u.settled.fragment = u.fragment := by
    unfold settled
    split_ifs <;> exact ⟨rfl, rfl⟩
  constructor
  · rintro ⟨hscheme, hauthority, hpath⟩
    generalize u.settled = v at hrest hscheme hauthority hpath
    obtain ⟨_, _, _, _, _⟩ := v
    obtain ⟨_, _, _, _, _⟩ := u
    obtain ⟨rfl, rfl⟩ := hrest
    subst hscheme hauthority hpath
    rfl
  · intro h
    rw [h]
    exact ⟨rfl, rfl, rfl⟩

/-- Settling changes neither the length of a path nor a slash at its end. -/
theorem settled_path {u : Url} (h : IsBody u.scheme u.authority u.path) :
    u.settled.path.toList.length = u.path.toList.length ∧
      (u.path.toList.getLast? = some '/' → u.settled.path.toList.getLast? = some '/') := by
  by_cases hdrive : u.scheme = "file" ∧ isDrive (firstSegment (u.path.toList.drop 1)) = true
  · obtain ⟨p, hpath, hp⟩ := h.exists_of_file (by rw [hdrive.1]; rfl)
    rw [settled, if_pos hdrive]
    simp only [hpath, String.toList_ofList, List.drop_one, List.tail_cons, List.length_cons,
      hp.length_settle, true_and]
    exact hp.getLast?_settle
  · rw [settled, if_neg hdrive]
    exact ⟨rfl, id⟩

/-- A route behind the path changes no drive. -/
theorem keepsDrive_join {u : Url} (hbody : IsBody u.scheme u.authority u.path)
    (hcut : IsCut u.path.toList front slashes) (hroute : IsRoute rest) :
    KeepsDrive ⟨u.scheme, u.authority, String.ofList (front ++ '/' :: rest), none, none⟩ ↔
      u.KeepsDrive := by
  obtain ⟨scheme, authority, path, query, fragment⟩ := u
  unfold KeepsDrive
  refine forall_congr' fun hfile => ?_
  obtain rfl : scheme = "file" := hfile
  obtain ⟨p, rfl, hp⟩ := hbody.exists_of_file rfl
  rw [String.toList_ofList] at hcut
  obtain ⟨q, hq, -, hfirst⟩ := hp.join hcut hroute
  simp only [hq, String.toList_ofList, List.drop_one, List.tail_cons]
  rcases hfirst with hfirst | ⟨hq, hp⟩
  · rw [hfirst]
  · simp only [hq, hp, Bool.false_eq_true, false_implies]

/-- There is no drive among slashes. -/
theorem keepsDrive_of_forall {u : Url} (h : ∀ c ∈ u.path.toList, c = '/') : u.KeepsDrive := by
  intro _ hdrive
  rw [firstSegment_of_forall fun c hc => h c (List.mem_of_mem_drop hc)] at hdrive
  contradiction

end Url

end CameraFleet
