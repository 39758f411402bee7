import CameraFleet.Proofs.Url.Host

/-!
# Authorities are read back

An authority that has been read (`Authority.IsRead`) is read from its own text again
(`readAuthority_text`), behind any scheme of the same kind with the same port.
-/

namespace CameraFleet.Url

/-! ## Characters -/

/-- A character that stands for itself in a URL and neither ends an authority nor a path. -/
def IsInner (c : Char) : Prop :=
  isMargin c = false ∧ isTail c = false ∧ Kind.special.isSlash c = false

instance (c : Char) : Decidable (IsInner c) :=
  inferInstanceAs (Decidable (_ ∧ _))

theorem isInner_digitChar : ∀ d < 16, IsInner (Nat.digitChar d) ∧ Nat.digitChar d ≠ '@' := by
  decide

theorem isInner_of_isDigit {c : Char} (h : c.isDigit = true) : IsInner c ∧ c ≠ '@' :=
  Natural.of_isDigit h (by decide)

theorem isInner_of_forall {c : Char} (hmargin : isMargin c = false)
    (h : ∀ d ∈ ['?', '#', '/', '\\', '@'], c ≠ d) : IsInner c ∧ c ≠ '@' := by
  simp only [List.forall_mem_cons] at h
  obtain ⟨hquestion, hhash, hslash, hback, hat, -⟩ := h
  refine ⟨⟨hmargin, ?_, ?_⟩, hat⟩
  · simp [isTail, hquestion, hhash]
  · simp [Kind.isSlash, hslash, hback]

/-! ## Places -/

/-- The text of a host: in brackets, or without colons. -/
structure IsPlace (cs : List Char) : Prop where
  inner : ∀ c ∈ cs, IsInner c ∧ c ≠ '@'
  shape : (∃ inner, cs = '[' :: (inner ++ [']']) ∧ ']' ∉ inner) ∨
    ∀ c ∈ cs, c ≠ ':' ∧ c ≠ '['

theorem isPlace_ipv6 (a : Network.Ipv6) : IsPlace (Host.ipv6 a).text.toList := by
  have hinner : ∀ c ∈ a.compressed, (IsInner c ∧ c ≠ '@') ∧ c ≠ ']' := by
    have hall : ∀ d < 16, Nat.digitChar d ≠ ']' := by decide
    intro c hc
    rcases Network.isGroupsText_of_mem_compressed hc with rfl | ⟨d, hd, rfl⟩
    · decide
    · exact ⟨isInner_digitChar d hd, hall d hd⟩
  rw [Host.toList_text_ipv6]
  refine ⟨?_, .inl ⟨_, rfl, fun hc => (hinner ']' hc).2 rfl⟩⟩
  simp only [List.forall_mem_cons, List.forall_mem_append]
  exact ⟨by decide, fun c hc => (hinner c hc).1, by decide, List.forall_mem_nil _⟩

theorem isPlace_of_forall {name : List Char} (h : ∀ c ∈ name, isMargin c = false ∧
    ∀ d ∈ ['?', '#', '/', '\\', '@', ':', '['], c ≠ d) : IsPlace name := by
  constructor
  · intro c hc
    obtain ⟨hmargin, hne⟩ := h c hc
    exact isInner_of_forall hmargin fun d hd => hne d (by simp at hd ⊢; tauto)
  · right
    intro c hc
    exact ⟨(h c hc).2 ':' (by simp), (h c hc).2 '[' (by simp)⟩

theorem isPlace_of_toAscii? {name : List Char} (h : Domain.toAscii? name = some name) :
    IsPlace name := by
  refine isPlace_of_forall fun c hc => ?_
  have hallowed := (Domain.mem_toAscii? h hc).2
  simp only [Domain.isForbidden, Bool.or_eq_false_iff, decide_eq_false_iff_not, List.mem_cons,
    not_or] at hallowed
  simp only [isMargin, decide_eq_false_iff_not, List.forall_mem_cons]
  tauto

theorem Host.IsSpecial.isPlace {h : Host} (hspecial : Host.IsSpecial h) :
    IsPlace h.text.toList := by
  cases hspecial with
  | ipv6 _ => exact isPlace_ipv6 _
  | ipv4 ha =>
    rw [Host.text, String.toList_ofList]
    exact isPlace_of_toAscii? (Host.toAscii?_text ha).1
  | domain _ hascii _ =>
    rw [Host.text, String.toList_ofList]
    exact isPlace_of_toAscii? hascii

theorem Host.IsPlain.isPlace {h : Host} (hplain : Host.IsPlain h) : IsPlace h.text.toList := by
  cases hplain with
  | ipv6 _ => exact isPlace_ipv6 _
  | domain hname =>
    rw [Host.text, String.toList_ofList]
    refine isPlace_of_forall fun c hc => ?_
    obtain ⟨hvisible, hforbidden⟩ := hname c hc
    simp only [Host.isVisible, Bool.and_eq_true, decide_eq_true_eq] at hvisible
    simp only [Host.isForbidden, decide_eq_false_iff_not, List.mem_cons, not_or] at hforbidden
    simp only [isMargin, decide_eq_false_iff_not, List.forall_mem_cons]
    have hmargin : ¬c ≤ ' ' := fun hle =>
      hforbidden.2.2.2.2.1 (Char.le_antisymm hle hvisible.1)
    tauto

theorem cutHost_bracket : ∀ {inner : List Char}, ']' ∉ inner → ∀ rest,
    cutHost true (inner ++ ']' :: rest) =
      (inner ++ ']' :: (cutHost false rest).1, (cutHost false rest).2)
  | [], _, rest => rfl
  | c :: inner, h, rest => by
    obtain ⟨hc, hinner⟩ := not_or.1 (mt List.mem_cons.2 h)
    have hstays : staysInBrackets true c = true := by
      simp [staysInBrackets, Ne.symm hc]
    rw [List.cons_append, cutHost, if_neg (by simp), hstays, cutHost_bracket hinner]
    rfl

theorem cutHost_plain : ∀ {cs : List Char}, (∀ c ∈ cs, c ≠ ':' ∧ c ≠ '[') → ∀ rest,
    cutHost false (cs ++ rest) = (cs ++ (cutHost false rest).1, (cutHost false rest).2)
  | [], _, _ => rfl
  | c :: cs, h, rest => by
    obtain ⟨⟨hcolon, hbracket⟩, hcs⟩ := List.forall_mem_cons.1 h
    have hstays : staysInBrackets false c = false := by
      simp [staysInBrackets, hbracket]
    rw [List.cons_append, cutHost, if_neg (fun hc => hcolon hc.1), hstays, cutHost_plain hcs]
    rfl

theorem IsPlace.cutHost_append {cs : List Char} (h : IsPlace cs) (rest : List Char) :
    cutHost false (cs ++ rest) = (cs ++ (cutHost false rest).1, (cutHost false rest).2) := by
  rcases h.shape with ⟨inner, rfl, hinner⟩ | hcs
  · have hopen : cutHost false ('[' :: (inner ++ [']']) ++ rest) =
        ('[' :: (cutHost true (inner ++ ']' :: rest)).1,
          (cutHost true (inner ++ ']' :: rest)).2) := by
      rw [List.cons_append, List.append_assoc, List.singleton_append]
      rfl
    rw [hopen, cutHost_bracket hinner, List.cons_append, List.append_assoc, List.singleton_append]
  · exact cutHost_plain hcs rest

/-! ## Users -/

theorem keepsEscapes_user : Text.KeepsEscapes (isKept userEscaped) := by decide

theorem isInner_of_isKept {c : Char} (h : isKept userEscaped c = true) :
    (IsInner c ∧ c ≠ '@') ∧ c ≠ ':' := by
  simp only [isKept, Host.isVisible, userEscaped, pathEscaped, fragmentEscaped, Bool.and_eq_true,
    decide_eq_true_eq, List.mem_append, List.mem_cons, not_or] at h
  have hmargin : isMargin c = false := by
    simp only [isMargin, decide_eq_false_iff_not]
    intro hle
    exact h.2.1.1.1 (Char.le_antisymm hle h.1.1)
  refine ⟨isInner_of_forall hmargin ?_, by tauto⟩
  simp only [List.forall_mem_cons]
  tauto

/-- A user that has been read. -/
structure IsUser (user : String) : Prop where
  inner : ∀ c ∈ user.toList, IsInner c ∧ c ≠ '@'
  read : userText user.toList = some user

theorem cutAt_of_not_mem {sep : Char} {cs : List Char} (h : sep ∉ cs) :
    Text.cutAt sep cs = (cs, none) := by
  have hdrop : cs.dropWhile (· ≠ sep) = [] :=
    List.dropWhile_eq_nil_iff.2 fun c hc => decide_eq_true fun heq => h (heq ▸ hc)
  rw [Text.cutAt, hdrop]

theorem encodePart_ne_nil {escaped cs : List Char} (h : cs ≠ []) :
    encodePart escaped cs ≠ [] :=
  Text.percentEncode_ne_nil h

theorem isUser_of_userText {cs : List Char} {user : String} (h : userText cs = some user) :
    IsUser user := by
  have hinner : ∀ part, ∀ c ∈ encodePart userEscaped part, (IsInner c ∧ c ≠ '@') ∧ c ≠ ':' :=
    fun part c hc => isInner_of_isKept (keepsEscapes_user.keep_of_mem hc)
  have hcolon : ∀ part, ':' ∉ encodePart userEscaped part := fun part hc =>
    (hinner part ':' hc).2 rfl
  have hidem : ∀ part, encodePart userEscaped (encodePart userEscaped part) =
      encodePart userEscaped part := fun part => keepsEscapes_user.percentEncode_idem
  unfold userText at h
  generalize Text.cutAt ':' cs = parts at h
  obtain ⟨name, password⟩ := parts
  dsimp only at h
  split at h
  · rename_i d rest
    obtain rfl := Option.some.inj h
    constructor
    · rw [String.toList_ofList]
      simp only [List.forall_mem_append, List.forall_mem_cons]
      exact ⟨fun c hc => (hinner _ c hc).1, by decide, fun c hc => (hinner _ c hc).1⟩
    · obtain ⟨e, es, hpassword⟩ := List.exists_cons_of_ne_nil
        (encodePart_ne_nil (List.cons_ne_nil d rest) : encodePart userEscaped (d :: rest) ≠ [])
      rw [String.toList_ofList, userText, Text.cutAt_append (hcolon name), hpassword]
      simp only [← hpassword, hidem]
  · split_ifs at h with hname
    obtain rfl := Option.some.inj h
    constructor
    · rw [String.toList_ofList]
      exact fun c hc => (hinner _ c hc).1
    · rw [String.toList_ofList, userText, cutAt_of_not_mem (hcolon name)]
      simp only [hidem]
      exact if_neg (encodePart_ne_nil hname)

/-! ## Ports -/

/-- A port that is not the scheme's own. -/
def IsPort (scheme : String) (port : Nat) : Prop :=
  port < UInt16.size ∧ defaultPort? scheme ≠ some port

theorem readPort_eq_ok {scheme : String} {cs rest : List Char} {port : Option Nat}
    (h : readPort scheme cs = .ok (port, rest)) :
    (∀ n, port = some n → IsPort scheme n) ∧ ∀ c, rest.head? = some c → c = '\\' := by
  simp only [readPort] at h
  split_ifs at h with hbad hnone
  all_goals
    obtain ⟨rfl, rfl⟩ := Prod.mk.inj (Except.ok.inj h)
    rw [not_or] at hbad
    obtain ⟨hsize, hrest⟩ := hbad
    refine ⟨fun n hn => ?_, fun c hc => ?_⟩
  · contradiction
  · simpa [hc] using hrest
  · obtain rfl := Option.some.inj hn
    exact ⟨Nat.not_le.1 hsize, (not_or.1 hnone).2⟩
  · simpa [hc] using hrest

theorem readPort_digits {scheme : String} {port : Nat} (h : IsPort scheme port) :
    readPort scheme (Natural.digits port) = .ok (some port, []) := by
  have hdigits : ∀ c ∈ Natural.digits port, c.isDigit = true :=
    fun _ => Natural.isDigit_of_mem_digits
  simp only [readPort, List.takeWhile_eq_self_iff.2 hdigits, List.dropWhile_eq_nil_iff.2 hdigits,
    Natural.ofDigitChars_digits]
  rw [if_neg (by simpa using h.1), if_neg (not_or.2 ⟨Natural.digits_ne_nil port, h.2⟩)]

/-! ## Authorities -/

/-- An authority that has been read. -/
structure Authority.IsRead (kind : Kind) (scheme : String) (a : Authority) : Prop where
  host : if kind = .other then Host.IsPlain a.host else Host.IsSpecial a.host
  user : ∀ user, a.user = some user → IsUser user
  port : ∀ port, a.port = some port → IsPort scheme port
  empty : a.host = .domain "" → a.user = none ∧ a.port = none

/-- What stands behind the last at sign. -/
def placeOf (cs : List Char) : List Char :=
  (cs.reverse.takeWhile (· ≠ '@')).reverse

/-- What stands in front of the last at sign, as a user. -/
def userOf (cs : List Char) : Option String :=
  if (placeOf cs).length < cs.length then
    userText (cs.take (cs.length - (placeOf cs).length)).dropLast
  else none

/-- The host that a text is with a kind of scheme. -/
def readHost (kind : Kind) (cs : List Char) : Except Problem Host :=
  if kind = .other then Host.plain cs else Host.special cs

/-- The authority of a user, a host that has been read, and a port. -/
def withPlace (scheme : String) (user : Option String) (portText : Option (List Char)) :
    Except Problem Host → Except Problem (Authority × List Char)
  | .error e => .error e
  | .ok host =>
    if host = .domain "" ∧ (portText.isSome ∨ user.isSome) then .error .emptyHost
    else match portText with
      | none => .ok (⟨user, host, none⟩, [])
      | some portText =>
        match readPort scheme portText with
        | .error e => .error e
        | .ok (port, rest) => .ok (⟨user, host, port⟩, rest)

theorem withPlace_eq (scheme : String) (user : Option String) (portText : Option (List Char))
    (read : Except Problem Host) : (do
      let host ← read
      if host = .domain "" ∧ (portText.isSome ∨ user.isSome) then throw .emptyHost
      match portText with
      | none => return (⟨user, host, none⟩, [])
      | some portText =>
        let (port, rest) ← readPort scheme portText
        return (⟨user, host, port⟩, rest)) = withPlace scheme user portText read := by
  rcases read with e | host
  · rfl
  · simp only [bind, Except.bind, withPlace]
    split_ifs
    · rfl
    · rcases portText with _ | portText
      · rfl
      · dsimp only
        rcases readPort scheme portText with e | ⟨port, rest⟩ <;> rfl

theorem readAuthority_eq (kind : Kind) (scheme : String) (cs : List Char) :
    readAuthority kind scheme cs = withPlace scheme (userOf cs) (cutHost false (placeOf cs)).2
      (readHost kind (cutHost false (placeOf cs)).1) := by
  rw [← withPlace_eq]
  unfold readAuthority readHost
  by_cases hkind : kind = .other
  · rw [if_pos hkind]
    simp only [if_pos hkind]
    rfl
  · rw [if_neg hkind]
    simp only [if_neg hkind]
    rfl

theorem isUser_of_userOf {cs : List Char} {user : String} (h : userOf cs = some user) :
    IsUser user := by
  unfold userOf at h
  split_ifs at h
  exact isUser_of_userText h

theorem isRead_of_readAuthority {kind : Kind} {scheme : String} {cs rest : List Char}
    {a : Authority} (h : readAuthority kind scheme cs = .ok (a, rest)) :
    a.IsRead kind scheme ∧ ∀ c, rest.head? = some c → c = '\\' := by
  rw [readAuthority_eq] at h
  rcases hhost : readHost kind (cutHost false (placeOf cs)).1 with e | host
  · rw [hhost] at h
    contradiction
  have hread : if kind = .other then Host.IsPlain host else Host.IsSpecial host := by
    unfold readHost at hhost
    split_ifs at hhost ⊢
    · exact Host.isPlain_of_plain hhost
    · exact Host.isSpecial_of_special hhost
  rw [hhost] at h
  dsimp only [withPlace] at h
  split_ifs at h with hempty
  have hnone : host = .domain "" → (cutHost false (placeOf cs)).2 = none ∧ userOf cs = none := by
    simpa [not_or] using hempty
  split at h
  · obtain ⟨rfl, rfl⟩ := Prod.mk.inj (Except.ok.inj h)
    exact ⟨⟨hread, fun user => isUser_of_userOf, by simp, fun hname => ⟨(hnone hname).2, rfl⟩⟩,
      by simp⟩
  · rename_i portText hport
    split at h
    · contradiction
    · rename_i port behind hread'
      obtain ⟨rfl, rfl⟩ := Prod.mk.inj (Except.ok.inj h)
      obtain ⟨hports, hbehind⟩ := readPort_eq_ok hread'
      refine ⟨⟨hread, fun user => isUser_of_userOf, hports, fun hname => ?_⟩, hbehind⟩
      rw [(hnone hname).1] at hport
      contradiction

theorem placeOf_of_not_mem {cs : List Char} (h : '@' ∉ cs) : placeOf cs = cs := by
  have hall : ∀ c ∈ cs.reverse, decide (c ≠ '@') = true := fun c hc =>
    decide_eq_true fun heq => h (heq ▸ List.mem_reverse.1 hc)
  rw [placeOf, List.takeWhile_eq_self_iff.2 hall, List.reverse_reverse]

theorem placeOf_append {place : List Char} (h : '@' ∉ place) (front : List Char) :
    placeOf (front ++ '@' :: place) = place := by
  have hall : ∀ c ∈ place.reverse, decide (c ≠ '@') = true := fun c hc =>
    decide_eq_true fun heq => h (heq ▸ List.mem_reverse.1 hc)
  have hreverse : (front ++ '@' :: place).reverse = place.reverse ++ '@' :: front.reverse := by
    simp
  rw [placeOf, hreverse, List.takeWhile_append_of_pos hall, List.takeWhile_cons_of_neg (by simp),
    List.append_nil, List.reverse_reverse]

theorem userOf_of_not_mem {cs : List Char} (h : '@' ∉ cs) : userOf cs = none := by
  rw [userOf, placeOf_of_not_mem h, if_neg (lt_irrefl _)]

theorem userOf_append {place : List Char} (h : '@' ∉ place) (front : List Char) :
    userOf (front ++ '@' :: place) = userText front := by
  have hlength : (front ++ '@' :: place).length - place.length = (front ++ ['@']).length := by
    simp only [List.length_append, List.length_cons, List.length_nil]
    omega
  have hshorter : place.length < (front ++ '@' :: place).length := by
    simp only [List.length_append, List.length_cons]
    omega
  have hfront : front ++ '@' :: place = front ++ ['@'] ++ place := by
    rw [List.append_assoc, List.singleton_append]
  rw [userOf, placeOf_append h, if_pos hshorter, hlength, hfront, List.take_left,
    List.dropLast_concat]

namespace Authority

variable {kind : Kind} {scheme : String} {a : Authority}

/-- The host and the port as the text has them. -/
def placeText (a : Authority) : List Char :=
  a.host.text.toList ++ (a.port.map fun port => ':' :: Natural.digits port).getD []

theorem toList_text (a : Authority) : a.text.toList =
    (a.user.map (·.toList ++ ['@'])).getD [] ++ a.placeText := by
  obtain ⟨user, host, port⟩ := a
  cases user <;> cases port <;> simp [text, placeText, Natural.toText]

namespace IsRead

theorem isPlace (h : a.IsRead kind scheme) : IsPlace a.host.text.toList := by
  have hhost := h.host
  split_ifs at hhost
  · exact hhost.isPlace
  · exact hhost.isPlace

theorem readHost_eq (h : a.IsRead kind scheme) : readHost kind a.host.text.toList = .ok a.host := by
  have hhost := h.host
  unfold readHost
  split_ifs at hhost ⊢
  · exact hhost.plain_text
  · exact hhost.special_text

theorem inner_placeText (h : a.IsRead kind scheme) :
    ∀ c ∈ a.placeText, IsInner c ∧ c ≠ '@' := by
  rw [placeText]
  simp only [List.forall_mem_append]
  refine ⟨h.isPlace.inner, ?_⟩
  rcases a.port with _ | port
  · exact List.forall_mem_nil _
  · simp only [Option.map_some, Option.getD_some, List.forall_mem_cons]
    exact ⟨by decide, fun c hc => isInner_of_isDigit (Natural.isDigit_of_mem_digits hc)⟩

theorem inner (h : a.IsRead kind scheme) : ∀ c ∈ a.text.toList, IsInner c := by
  rw [toList_text]
  simp only [List.forall_mem_append]
  refine ⟨?_, fun c hc => (h.inner_placeText c hc).1⟩
  rcases huser : a.user with _ | user
  · exact List.forall_mem_nil _
  · simp only [Option.map_some, Option.getD_some, List.forall_mem_append, List.forall_mem_singleton]
    exact ⟨fun c hc => ((h.user user huser).inner c hc).1, by decide⟩

/-- The place of an authority is read as its host and its port. -/
theorem withPlace_eq (h : a.IsRead kind scheme) :
    withPlace scheme a.user (cutHost false a.placeText).2
      (readHost kind (cutHost false a.placeText).1) = .ok (a, []) := by
  have hplace := h.isPlace
  have hhost := h.readHost_eq
  have hempty := h.empty
  have hport := h.port
  obtain ⟨user, host, port⟩ := a
  dsimp only at hplace hhost hempty hport
  rcases port with _ | port
  · have hcut : cutHost false (placeText ⟨user, host, none⟩) = (host.text.toList, none) := by
      have := hplace.cutHost_append []
      simpa [placeText, cutHost] using this
    have hcondition :
        ¬(host = .domain "" ∧ ((none : Option (List Char)).isSome ∨ user.isSome)) := by
      rintro ⟨hname, hsome⟩
      simp [(hempty hname).1] at hsome
    rw [hcut, hhost, withPlace, if_neg hcondition]
  · have hcut : cutHost false (placeText ⟨user, host, some port⟩) =
        (host.text.toList, some (Natural.digits port)) := by
      have := hplace.cutHost_append (':' :: Natural.digits port)
      simpa [placeText, cutHost] using this
    have hname : host ≠ .domain "" := fun hname => by
      simpa using (hempty hname).2
    rw [hcut, hhost, withPlace, if_neg fun hcondition => hname hcondition.1]
    simp only [readPort_digits (hport port rfl)]

/-- An authority is read back from its text. -/
theorem readAuthority_text (h : a.IsRead kind scheme) :
    readAuthority kind scheme a.text.toList = .ok (a, []) := by
  have hat : '@' ∉ a.placeText := fun hc => (h.inner_placeText '@' hc).2 rfl
  have hread := h.withPlace_eq
  rw [readAuthority_eq, toList_text]
  rcases huser : a.user with _ | user
  · rw [huser] at hread
    rw [Option.map_none, Option.getD_none, List.nil_append, userOf_of_not_mem hat,
      placeOf_of_not_mem hat, hread]
  · rw [huser] at hread
    rw [Option.map_some, Option.getD_some, List.append_assoc, List.singleton_append,
      userOf_append hat, placeOf_append hat, (h.user user huser).read, hread]

theorem text_ne_at (h : a.IsRead kind scheme) : a.text.toList ≠ ['@'] := by
  intro hat
  have hread := h.readAuthority_text
  have hempty : readAuthority kind scheme ['@'] =
      withPlace scheme none none (readHost kind []) := readAuthority_eq kind scheme ['@']
  rw [hat, hempty, readHost] at hread
  split_ifs at hread
  · have hplain : Host.plain [] = .ok (.domain "") := rfl
    rw [hplain] at hread
    obtain ⟨rfl, -⟩ := Prod.mk.inj (Except.ok.inj hread)
    exact absurd hat (by decide)
  · contradiction

end IsRead

end Authority

end CameraFleet.Url
