import CameraFleet.Proofs.Url.Path

/-!
# The parts of a URL

A URL has a scheme (`IsScheme`), a body of an authority and a path (`IsBody`), and perhaps a query
and a fragment (`IsTailOf`). Where these have been read, the text of the parts is read as them
(`ofText_eq_ofParts`, `IsBody.ofParts_eq`). Only the body of a file may change once more
(`settled`): a drive that stands first behind slashes was none when it was read, and is one when
the slashes are left out.
-/

namespace CameraFleet.Url

/-! ## Schemes -/

/-- A scheme that has been read. -/
structure IsScheme (scheme : String) : Prop where
  head : ∃ c rest, scheme.toList = c :: rest ∧ c.isAlpha = true
  chars : ∀ c ∈ scheme.toList, isSchemeChar c = true
  lower : scheme.toList.map Char.toLower = scheme.toList

theorem lt_of_isSchemeChar {c : Char} (h : isSchemeChar c = true) : c.toNat < 0x80 := by
  rw [isSchemeChar] at h
  simp only [Bool.or_eq_true, decide_eq_true_eq] at h
  rcases h with ((h | rfl) | rfl) | rfl
  · rcases Bool.or_eq_true_iff.1 h with h | h
    · exact lt_of_isAlpha h
    · exact Natural.of_isDigit h (by decide)
  · decide
  · decide
  · decide

theorem schemeChar_toLower {c : Char} (h : isSchemeChar c = true) :
    isSchemeChar c.toLower = true ∧ c.toLower.toLower = c.toLower ∧
      (c.isAlpha = true → c.toLower.isAlpha = true) :=
  Text.of_forall_ascii (P := fun c => isSchemeChar c = true → isSchemeChar c.toLower = true ∧
    c.toLower.toLower = c.toLower ∧ (c.isAlpha = true → c.toLower.isAlpha = true))
    (by decide +kernel) (lt_of_isSchemeChar h) h

theorem isScheme_of_scheme? {cs rest : List Char} {scheme : String}
    (h : scheme? cs = some (scheme, rest)) : IsScheme scheme := by
  unfold scheme? at h
  split at h
  · split_ifs at h with hhead
    obtain ⟨rfl, -⟩ := Prod.mk.inj (Option.some.inj h)
    have hchars : ∀ c ∈ cs.takeWhile isSchemeChar, isSchemeChar c = true := fun c hc =>
      List.mem_takeWhile_imp hc
    rcases cs with _ | ⟨c, cs⟩
    · contradiction
    have halpha : c.isAlpha = true := hhead
    have hc : isSchemeChar c = true := by
      rw [isSchemeChar, show c.isAlphanum = true from Bool.or_eq_true_iff.2 (.inl halpha)]
      rfl
    constructor
    · rw [String.toList_ofList, List.takeWhile_cons_of_pos hc]
      exact ⟨_, _, rfl, (schemeChar_toLower hc).2.2 halpha⟩
    · rw [String.toList_ofList]
      simp only [List.forall_mem_map]
      exact fun d hd => (schemeChar_toLower (hchars d hd)).1
    · rw [String.toList_ofList, List.map_map]
      exact List.map_congr_left fun d hd => (schemeChar_toLower (hchars d hd)).2.1
  · contradiction

theorem exists_of_scheme? {cs rest : List Char} {scheme : String}
    (h : scheme? cs = some (scheme, rest)) : ∃ front, cs = front ++ ':' :: rest := by
  unfold scheme? at h
  split at h
  · rename_i behind hbehind
    split_ifs at h
    obtain ⟨-, rfl⟩ := Prod.mk.inj (Option.some.inj h)
    refine ⟨cs.takeWhile isSchemeChar, ?_⟩
    rw [← hbehind, List.takeWhile_append_dropWhile]
  · contradiction

theorem IsScheme.scheme?_append {scheme : String} (h : IsScheme scheme) (rest : List Char) :
    scheme? (scheme.toList ++ ':' :: rest) = some (scheme, rest) := by
  obtain ⟨c, cs, hscheme, halpha⟩ := h.head
  have hdrop : (scheme.toList ++ ':' :: rest).dropWhile isSchemeChar = ':' :: rest := by
    rw [List.dropWhile_append_of_pos h.chars, List.dropWhile_cons_of_neg (by decide)]
  have htake : (scheme.toList ++ ':' :: rest).takeWhile isSchemeChar = scheme.toList := by
    rw [List.takeWhile_append_of_pos h.chars, List.takeWhile_cons_of_neg (by decide),
      List.append_nil]
  have hhead : (scheme.toList ++ ':' :: rest).head?.any Char.isAlpha = true := by
    rw [hscheme]
    exact halpha
  simp only [scheme?, hdrop, htake, hhead, if_true, h.lower, String.ofList_toList]

/-! ## Characters -/

theorem isMargin_of_le {c : Char} (h : ' ' ≤ c) (hne : c ≠ ' ') : isMargin c = false := by
  rw [isMargin, decide_eq_false_iff_not]
  exact fun hle => hne (Char.le_antisymm hle h)

theorem isBreak_of_le {c : Char} (h : ' ' ≤ c) : isBreak c = false := by
  by_contra hbreak
  simp only [isBreak, Bool.not_eq_false, Bool.or_eq_true, decide_eq_true_eq] at hbreak
  rcases hbreak with (rfl | rfl) | rfl <;> exact absurd h (by decide)

theorem le_of_isVisible {c : Char} (h : Host.isVisible c = true) : ' ' ≤ c := by
  rw [Host.isVisible, Bool.and_eq_true, decide_eq_true_eq] at h
  exact h.1

theorem le_of_isMargin {c : Char} (h : isMargin c = false) : ' ' ≤ c ∧ c ≠ ' ' := by
  rw [isMargin, decide_eq_false_iff_not] at h
  refine ⟨(Char.le_total ' ' c).resolve_right h, ?_⟩
  rintro rfl
  exact h (Char.le_refl ' ')

theorem IsInner.le {c : Char} (h : IsInner c) : ' ' ≤ c ∧ c ≠ ' ' ∧ isTail c = false :=
  ⟨(le_of_isMargin h.1).1, (le_of_isMargin h.1).2, h.2.1⟩

/-- All of a text counts that has no control characters and no spaces at its ends. -/
theorem passed_eq_self {cs : List Char} (h : ∀ c ∈ cs, ' ' ≤ c) (hhead : cs.head? ≠ some ' ')
    (hlast : cs.getLast? ≠ some ' ') :
    (Text.stripBy isMargin cs).filter (!isBreak ·) = cs := by
  rw [Text.stripBy_eq_self, List.filter_eq_self]
  · intro c hc
    rw [isBreak_of_le (h c hc)]
    rfl
  · exact fun c hc => isMargin_of_le (h c (List.mem_of_mem_head? hc)) fun heq => hhead (heq ▸ hc)
  · exact fun c hc => isMargin_of_le (h c (List.mem_of_getLast? hc)) fun heq => hlast (heq ▸ hc)

theorem isVisible_of_isKept {escaped : List Char} {c : Char} (h : isKept escaped c = true) :
    Host.isVisible c = true ∧ c ∉ escaped := by
  rw [isKept, Bool.and_eq_true, decide_eq_true_eq] at h
  exact h

theorem le_of_isSchemeChar {c : Char} (h : isSchemeChar c = true) : ' ' ≤ c ∧ c ≠ ' ' :=
  Text.of_forall_ascii (P := fun c => isSchemeChar c = true → ' ' ≤ c ∧ c ≠ ' ')
    (by decide +kernel) (lt_of_isSchemeChar h) h

theorem IsPath.le {kind : Kind} {p : List Char} (hp : IsPath kind p) :
    ∀ c ∈ p, ' ' ≤ c ∧ c ≠ ' ' ∧ isTail c = false := by
  have hescaped : ∀ c ∈ [' ', '?', '#'], c ∈ pathEscaped :=
    List.all_iff_forall_prop.1 rfl
  intro c hc
  rcases hp.mem hc with rfl | ⟨hkept, -⟩
  · decide
  · obtain ⟨hvisible, hnot⟩ := isVisible_of_isKept hkept
    refine ⟨le_of_isVisible hvisible, fun heq => hnot (heq ▸ hescaped ' ' (by decide)), ?_⟩
    simp only [isTail, Bool.or_eq_false_iff, decide_eq_false_iff_not]
    exact ⟨fun heq => hnot (heq ▸ hescaped '?' (by decide)),
      fun heq => hnot (heq ▸ hescaped '#' (by decide))⟩

/-! ## Queries and fragments -/

/-- A query and a fragment that have been read. -/
structure IsTailOf (kind : Kind) (query fragment : Option String) : Prop where
  query : ∀ q, query = some q →
    ∀ c ∈ q.toList, isKept (queryEscaped (kind ≠ .other)) c = true
  fragment : ∀ f, fragment = some f → ∀ c ∈ f.toList, isKept fragmentEscaped c = true

theorem isTailOf_tail (kind : Kind) (cs : List Char) :
    IsTailOf kind (tail kind cs).1 (tail kind cs).2 := by
  have hquery : Text.KeepsEscapes (isKept (queryEscaped (kind ≠ .other))) := by
    cases kind <;> decide
  have hfragment : Text.KeepsEscapes (isKept fragmentEscaped) := by decide
  unfold tail
  generalize Text.cutAt '#' cs = parts
  obtain ⟨front, fragment⟩ := parts
  constructor
  · intro q hq c hc
    rcases front with _ | ⟨d, query⟩
    · contradiction
    · obtain rfl := Option.some.inj hq
      rw [String.toList_ofList] at hc
      exact hquery.keep_of_mem hc
  · intro f hf c hc
    rcases fragment with _ | fragment
    · contradiction
    · obtain rfl := Option.some.inj hf
      rw [String.toList_ofList] at hc
      exact hfragment.keep_of_mem hc

/-- What stands behind a path, as characters. -/
def tailChars (query fragment : Option String) : List Char :=
  (query.map ('?' :: ·.toList)).getD [] ++ (fragment.map ('#' :: ·.toList)).getD []

theorem tailChars_eq_nil_iff {query fragment : Option String} :
    tailChars query fragment = [] ↔ query = none ∧ fragment = none := by
  cases query <;> cases fragment <;> simp [tailChars]

theorem toList_tailText (u : Url) : u.tailText.toList = tailChars u.query u.fragment := by
  obtain ⟨_, _, _, query, fragment⟩ := u
  cases query <;> cases fragment <;> simp [tailText, tailChars]

/-- A query and a fragment are read back. -/
theorem IsTailOf.tail_eq {kind : Kind} {query fragment : Option String}
    (h : IsTailOf kind query fragment) :
    tail kind (tailChars query fragment) = (query, fragment) := by
  obtain ⟨hquery, hfragment⟩ := h
  have hhash : ∀ q, query = some q → '#' ∉ '?' :: q.toList := by
    intro q hq hc
    rcases List.mem_cons.1 hc with hc | hc
    · exact absurd hc (by decide)
    · have hkept := hquery q hq '#' hc
      cases kind <;> exact absurd hkept (by decide)
  have hencode : ∀ q, query = some q →
      encodePart (queryEscaped (kind ≠ .other)) q.toList = q.toList := fun q hq =>
    Text.percentEncode_eq_self (hquery q hq)
  have hencode' : ∀ f, fragment = some f → encodePart fragmentEscaped f.toList = f.toList :=
    fun f hf => Text.percentEncode_eq_self (hfragment f hf)
  rcases fragment with _ | f
  · rcases query with _ | q
    · rfl
    · have hcut : Text.cutAt '#' (tailChars (some q) none) = ('?' :: q.toList, none) := by
        rw [tailChars, Option.map_none, Option.getD_none, List.append_nil, Option.map_some,
          Option.getD_some, cutAt_of_not_mem (hhash q rfl)]
      simp only [tail, hcut, hencode q rfl, Option.map_none, String.ofList_toList]
  · rcases query with _ | q
    · have hcut : Text.cutAt '#' (tailChars none (some f)) = ([], some f.toList) :=
        Text.cutAt_append List.not_mem_nil f.toList
      simp only [tail, hcut, hencode' f rfl, Option.map_some, String.ofList_toList]
    · have hcut : Text.cutAt '#' (tailChars (some q) (some f)) = ('?' :: q.toList, some f.toList) :=
        Text.cutAt_append (hhash q rfl) f.toList
      simp only [tail, hcut, hencode q rfl, hencode' f rfl, Option.map_some, String.ofList_toList]

theorem IsTailOf.le {kind : Kind} {query fragment : Option String}
    (h : IsTailOf kind query fragment) : ∀ c ∈ tailChars query fragment, ' ' ≤ c ∧ c ≠ ' ' := by
  have hspace : ' ' ∈ queryEscaped (kind ≠ .other) ∧ ' ' ∈ fragmentEscaped := by
    cases kind <;> decide
  have hkept : ∀ {escaped : List Char}, ' ' ∈ escaped → ∀ c, isKept escaped c = true →
      ' ' ≤ c ∧ c ≠ ' ' := by
    intro escaped hmem c hc
    obtain ⟨hvisible, hnot⟩ := isVisible_of_isKept hc
    exact ⟨le_of_isVisible hvisible, fun heq => hnot (heq ▸ hmem)⟩
  rw [tailChars]
  simp only [List.forall_mem_append]
  constructor
  · rcases hq : query with _ | q
    · exact List.forall_mem_nil _
    · simp only [Option.map_some, Option.getD_some, List.forall_mem_cons]
      exact ⟨by decide, fun c hc => hkept hspace.1 c (h.query q hq c hc)⟩
  · rcases hf : fragment with _ | f
    · exact List.forall_mem_nil _
    · simp only [Option.map_some, Option.getD_some, List.forall_mem_cons]
      exact ⟨by decide, fun c hc => hkept hspace.2 c (h.fragment f hf c hc)⟩

/-- What can stand behind a path: nothing, or a query or a fragment behind its sign. -/
structure IsTailText (cs : List Char) : Prop where
  head : ∀ c, cs.head? = some c → isTail c = true
  le : ∀ c ∈ cs, ' ' ≤ c

theorem IsTailOf.isTailText {kind : Kind} {query fragment : Option String}
    (h : IsTailOf kind query fragment) : IsTailText (tailChars query fragment) := by
  refine ⟨fun c hc => ?_, fun c hc => (h.le c hc).1⟩
  rcases query with _ | q
  · rcases fragment with _ | f
    · contradiction
    · obtain rfl := Option.some.inj hc
      rfl
  · obtain rfl := Option.some.inj hc
    rfl

/-! ## Reading a text by its parts -/

/-- The URL of a scheme, and what follows its colon in two parts. -/
def ofParts (scheme : String) (body tailText : List Char) : Except Problem Url :=
  match Kind.ofScheme scheme with
  | .special => withAuthority .special scheme (body.dropWhile Kind.special.isSlash) tailText
  | .file => ofFile body tailText
  | .other => ofOther scheme body tailText

theorem ofText_eq_ofParts {scheme : String} {body tailText : List Char} (hscheme : IsScheme scheme)
    (hbody : ∀ c ∈ body, ' ' ≤ c ∧ isTail c = false) (htail : IsTailText tailText)
    (hlast : (body ++ tailText).getLast? ≠ some ' ') :
    ofText (String.ofList (scheme.toList ++ ':' :: (body ++ tailText))) =
      ofParts scheme body tailText := by
  have hchars : ∀ c ∈ scheme.toList ++ ':' :: (body ++ tailText), ' ' ≤ c := by
    simp only [List.forall_mem_append, List.forall_mem_cons]
    exact ⟨fun c hc => (le_of_isSchemeChar (hscheme.chars c hc)).1, by decide,
      fun c hc => (hbody c hc).1, htail.le⟩
  have hhead : (scheme.toList ++ ':' :: (body ++ tailText)).head? ≠ some ' ' := by
    obtain ⟨c, rest, heq, -⟩ := hscheme.head
    have hc := (le_of_isSchemeChar (hscheme.chars c (heq ▸ List.mem_cons_self))).2
    rw [heq]
    exact fun h => hc (Option.some.inj h)
  have hend : (scheme.toList ++ ':' :: (body ++ tailText)).getLast? ≠ some ' ' := by
    rw [List.getLast?_append_of_ne_nil _ (List.cons_ne_nil _ _), List.getLast?_cons]
    rcases hcs : (body ++ tailText).getLast? with _ | c
    · decide
    · rwa [hcs] at hlast
  have htext : (Text.stripBy isMargin (scheme.toList ++ ':' :: (body ++ tailText))).filter
      (!isBreak ·) = scheme.toList ++ ':' :: (body ++ tailText) :=
    passed_eq_self hchars hhead hend
  have hinner : ∀ c ∈ body, (!isTail c) = true := fun c hc => by
    rw [(hbody c hc).2]
    rfl
  have hcut : (body ++ tailText).takeWhile (!isTail ·) = body ∧
      (body ++ tailText).dropWhile (!isTail ·) = tailText := by
    rw [List.takeWhile_append_of_pos hinner, List.dropWhile_append_of_pos hinner]
    rcases tailText with _ | ⟨c, rest⟩
    · exact ⟨List.append_nil _, rfl⟩
    · have hstop : ¬(!isTail c) = true := by simp [htail.head c rfl]
      rw [List.takeWhile_cons_of_neg (p := (!isTail ·)) hstop,
        List.dropWhile_cons_of_neg (p := (!isTail ·)) hstop]
      exact ⟨List.append_nil _, rfl⟩
  unfold ofText ofParts
  rw [String.toList_ofList, htext, hscheme.scheme?_append]
  rcases hkind : Kind.ofScheme scheme with _ | _ | _ <;> simp only [hcut, hkind]

/-! ## Reading the parts -/

/-- The host of a file that has been read. -/
def IsFileHost (h : Host) : Prop :=
  h = .domain "" ∨ Host.IsSpecial h ∧ h ≠ .domain "localhost"

section

variable {kind : Kind} {scheme : String} {a : Authority} {p behind : List Char}

theorem isSlash_of_inner {c : Char} (h : IsInner c) : kind.isSlash c = false := by
  have hspecial := h.2.2
  simp only [Kind.isSlash, Bool.or_eq_false_iff, Bool.and_eq_false_iff, decide_eq_false_iff_not]
    at hspecial ⊢
  refine ⟨hspecial.1, ?_⟩
  rcases hspecial.2 with h | h
  · exact .inl h
  · exact absurd h (by decide)

theorem cut_inner (kind : Kind) {front : List Char} (hfront : ∀ c ∈ front, IsInner c)
    (hbehind : ∀ c, behind.head? = some c → kind.isSlash c = true) :
    (front ++ behind).takeWhile (!kind.isSlash ·) = front ∧
      (front ++ behind).dropWhile (!kind.isSlash ·) = behind := by
  have hinner : ∀ c ∈ front, (!kind.isSlash c) = true := fun c hc => by
    rw [isSlash_of_inner (hfront c hc)]
    rfl
  rw [List.takeWhile_append_of_pos hinner, List.dropWhile_append_of_pos hinner]
  rcases behind with _ | ⟨c, behind⟩
  · exact ⟨List.append_nil _, rfl⟩
  · have hstop : ¬(!kind.isSlash c) = true := by simp [hbehind c rfl]
    rw [List.takeWhile_cons_of_neg (p := (!kind.isSlash ·)) hstop,
      List.dropWhile_cons_of_neg (p := (!kind.isSlash ·)) hstop]
    exact ⟨List.append_nil _, rfl⟩

theorem isSlash_of_head {c : Char} (h : ('/' :: p).head? = some c) : kind.isSlash c = true := by
  obtain rfl := Option.some.inj h
  simp [Kind.isSlash]

/-- What is read as an authority is read in front of a path. -/
theorem withAuthority_eq {front : List Char} (hfront : ∀ c ∈ front, IsInner c)
    (hread : readAuthority kind scheme front = .ok (a, [])) (hat : front ≠ ['@'])
    (hbehind : ∀ c, behind.head? = some c → kind.isSlash c = true) (tailText : List Char) :
    withAuthority kind scheme (front ++ behind) tailText =
      .ok ⟨scheme, some a, pathBehind kind behind, (tail kind tailText).1,
        (tail kind tailText).2⟩ := by
  unfold withAuthority
  simp only [cut_inner kind hfront hbehind, hread]
  rw [if_neg fun h => hat h.1]
  rfl

theorem withAuthority_text (ha : a.IsRead kind scheme)
    (hbehind : ∀ c, behind.head? = some c → kind.isSlash c = true) (tailText : List Char) :
    withAuthority kind scheme (a.text.toList ++ behind) tailText =
      .ok ⟨scheme, some a, pathBehind kind behind, (tail kind tailText).1,
        (tail kind tailText).2⟩ :=
  withAuthority_eq ha.inner ha.readAuthority_text ha.text_ne_at hbehind tailText

theorem text_ne_nil (ha : a.IsRead .special scheme) : a.text.toList ≠ [] := by
  intro hempty
  have hread := ha.readAuthority_text
  rw [hempty] at hread
  contradiction

/-- The authority of a well-known scheme stands behind its slashes. -/
theorem ofParts_special (hkind : Kind.ofScheme scheme = .special) {front : List Char}
    (hfront : ∀ c ∈ front, IsInner c) (hne : front ≠ []) (behind tailText : List Char) :
    ofParts scheme ('/' :: '/' :: (front ++ behind)) tailText =
      withAuthority .special scheme (front ++ behind) tailText := by
  obtain ⟨c, cs, rfl⟩ := List.exists_cons_of_ne_nil hne
  have hc : ¬Kind.special.isSlash c = true := by
    rw [(hfront c List.mem_cons_self).2.2]
    exact Bool.false_ne_true
  unfold ofParts
  simp only [hkind]
  rw [List.dropWhile_cons_of_pos rfl, List.dropWhile_cons_of_pos rfl, List.cons_append,
    List.dropWhile_cons_of_neg hc]

theorem ofParts_network (hkind : Kind.ofScheme scheme ≠ .file)
    (ha : a.IsRead (Kind.ofScheme scheme) scheme) (hp : IsPath (Kind.ofScheme scheme) p)
    (tailText : List Char) :
    ofParts scheme ('/' :: '/' :: (a.text.toList ++ '/' :: p)) tailText =
      .ok ⟨scheme, some a, String.ofList ('/' :: p), (tail (Kind.ofScheme scheme) tailText).1,
        (tail (Kind.ofScheme scheme) tailText).2⟩ := by
  have hpath : pathBehind (Kind.ofScheme scheme) ('/' :: p) = String.ofList ('/' :: p) := by
    rw [hp.pathBehind_eq, hp.settle_eq_self fun hfile => absurd hfile hkind]
  rcases hof : Kind.ofScheme scheme with _ | _ | _
  · rw [hof] at ha hpath
    rw [ofParts_special hof ha.inner (text_ne_nil ha),
      withAuthority_text ha fun _ => isSlash_of_head, hpath]
  · exact absurd hof hkind
  · rw [hof] at ha hpath
    unfold ofParts
    simp only [hof, ofOther]
    rw [withAuthority_text ha fun _ => isSlash_of_head, hpath]

theorem ofParts_bare (hkind : Kind.ofScheme scheme = .other) (ha : a.IsRead .other scheme)
    (tailText : List Char) : ofParts scheme ('/' :: '/' :: a.text.toList) tailText =
      .ok ⟨scheme, some a, "", (tail .other tailText).1, (tail .other tailText).2⟩ := by
  have hnil : ∀ c, ([] : List Char).head? = some c → Kind.other.isSlash c = true := by simp
  have hread := withAuthority_text ha hnil tailText
  rw [List.append_nil] at hread
  unfold ofParts
  simp only [hkind, ofOther]
  exact hread

theorem not_isDrive_of_toAscii? {name : List Char} (h : Domain.toAscii? name = some name) :
    isDrive name = false := by
  by_contra hdrive
  rcases name with _ | ⟨c, _ | ⟨d, _ | _⟩⟩
  · exact hdrive rfl
  · exact hdrive rfl
  · have hallowed := (Domain.mem_toAscii? h (List.mem_cons_of_mem c List.mem_cons_self)).2
    simp only [isDrive, Bool.not_eq_false, Bool.and_eq_true, Bool.or_eq_true,
      decide_eq_true_eq] at hdrive
    rcases hdrive.2 with rfl | rfl <;> contradiction
  · exact hdrive rfl

theorem not_isDrive_text {h : Host} (hh : Host.IsSpecial h) : isDrive h.text.toList = false := by
  cases hh with
  | ipv6 ha =>
    rename_i address
    rw [Host.toList_text_ipv6]
    rcases address.compressed with _ | ⟨c, _ | _⟩ <;> rfl
  | ipv4 ha =>
    rw [Host.text, String.toList_ofList]
    exact not_isDrive_of_toAscii? (Host.toAscii?_text ha).1
  | domain _ hascii _ =>
    rw [Host.text, String.toList_ofList]
    exact not_isDrive_of_toAscii? hascii

theorem fileHost_text {h : Host} (hh : IsFileHost h) :
    fileHost h.text.toList = .ok h ∧ isDrive h.text.toList = false ∧
      ∀ c ∈ h.text.toList, IsInner c := by
  rcases hh with rfl | ⟨hspecial, hlocal⟩
  · exact ⟨rfl, rfl, by simp [Host.text]⟩
  · have hread := hspecial.special_text
    have hne : h.text.toList ≠ [] := fun hempty => by
      rw [hempty] at hread
      contradiction
    refine ⟨?_, not_isDrive_text hspecial, fun c hc => (hspecial.isPlace.inner c hc).1⟩
    rw [fileHost, if_neg hne, hread, Except.map, if_neg hlocal]

theorem beginsOnDrive_eq (hp : IsPath .file p) :
    beginsOnDrive ('/' :: p) = isDrive (firstSegment p) := by
  obtain ⟨rest, hsplit, -⟩ := exists_splitOn p
  have hsegments := hp.segments
  rw [hsplit] at hsegments
  rw [beginsOnDrive, hp.pieces_eq, hsplit, resolve_eq hsegments, List.head?_cons, Option.any_some,
    isDrive_segment hp.isSegment_firstSegment]

theorem eq_file_of_kind (h : Kind.ofScheme scheme = .file) : scheme = "file" := by
  unfold Kind.ofScheme at h
  split_ifs at h with hfile
  exact hfile

theorem ofParts_file {h : Host} (hh : IsFileHost h) (hp : IsPath .file p) (tailText : List Char) :
    ofParts "file" ('/' :: '/' :: (h.text.toList ++ '/' :: p)) tailText =
      .ok ⟨"file", some ⟨none, if isDrive (firstSegment p) then .domain "" else h, none⟩,
        String.ofList ('/' :: settle .file p), (tail .file tailText).1,
        (tail .file tailText).2⟩ := by
  obtain ⟨hhost, hdrive, hinner⟩ := fileHost_text hh
  obtain ⟨htake, hdrop⟩ := cut_inner .file hinner fun _ => isSlash_of_head (p := p)
  have hkind : Kind.ofScheme "file" = .file := rfl
  have hslash : Kind.file.isSlash '/' = true := rfl
  unfold ofParts
  simp only [hkind, ofFile, hslash, and_self, if_true, htake, hdrop, hdrive, hhost,
    beginsOnDrive_eq hp, hp.pathBehind_eq]
  rfl

/-- The path of a file may stand alone. -/
theorem ofParts_file_rooted (hp : IsPath .file p) (tailText : List Char) :
    ofParts "file" ('/' :: p) tailText =
      .ok ⟨"file", some ⟨none, .domain "", none⟩, String.ofList ('/' :: settle .file p),
        (tail .file tailText).1, (tail .file tailText).2⟩ := by
  have hkind : Kind.ofScheme "file" = .file := rfl
  have hpath := hp.pathBehind_eq
  unfold ofParts ofFile
  simp only [hkind]
  rcases p with _ | ⟨c, p⟩
  · simp only [hpath]
    rfl
  · have hslash : Kind.file.isSlash c = false := by
      rcases hp.mem List.mem_cons_self with rfl | ⟨-, hslash⟩
      · exact absurd rfl (hp.noSlash rfl)
      · exact hslash
    simp only [hslash, hpath, Bool.false_eq_true, and_false, if_false]
    rfl

theorem ofOther_rooted {cs tailText : List Char} (h : cs.head? ≠ some '/') :
    ofOther scheme ('/' :: cs) tailText =
      .ok ⟨scheme, none, pathOf .other cs, (tail .other tailText).1, (tail .other tailText).2⟩ := by
  rw [ofOther.eq_def]
  dsimp only
  split
  · rename_i rest heq
    exact absurd (congrArg List.head? (List.cons.inj heq).2) h
  · rename_i rest _ heq
    rw [(List.cons.inj heq).2]
  · rename_i hslash
    exact absurd rfl (hslash cs)

/-- A dot between two slashes is left out. -/
theorem ofParts_here (hkind : Kind.ofScheme scheme = .other) (hp : IsPath .other p)
    (tailText : List Char) : ofParts scheme ('/' :: '.' :: '/' :: p) tailText =
      .ok ⟨scheme, none, String.ofList ('/' :: p), (tail .other tailText).1,
        (tail .other tailText).2⟩ := by
  have hpath := hp.pathOf_eq
  rw [hp.settle_eq_self (by simp)] at hpath
  unfold ofParts
  simp only [hkind]
  rw [ofOther_rooted (by simp), pathOf_here, hpath]

theorem ofParts_slash (hkind : Kind.ofScheme scheme = .other) (hp : IsPath .other p)
    (hhead : p.head? ≠ some '/') (tailText : List Char) : ofParts scheme ('/' :: p) tailText =
      .ok ⟨scheme, none, String.ofList ('/' :: p), (tail .other tailText).1,
        (tail .other tailText).2⟩ := by
  have hpath := hp.pathOf_eq
  rw [hp.settle_eq_self (by simp)] at hpath
  unfold ofParts
  simp only [hkind]
  rw [ofOther_rooted hhead, hpath]

theorem ofParts_rooted (hkind : Kind.ofScheme scheme = .other) (hp : IsPath .other p)
    (tailText : List Char) :
    ofParts scheme ((if ['/', '/'].isPrefixOf ('/' :: p) then ['/', '.'] else []) ++ '/' :: p)
      tailText = .ok ⟨scheme, none, String.ofList ('/' :: p), (tail .other tailText).1,
        (tail .other tailText).2⟩ := by
  split_ifs with hbegins
  · exact ofParts_here hkind hp tailText
  · refine ofParts_slash hkind hp (fun hhead => ?_) tailText
    obtain ⟨rest, rfl⟩ := List.head?_eq_some_iff.1 hhead
    exact hbegins rfl

theorem ofParts_flat (hkind : Kind.ofScheme scheme = .other)
    (hp : ∀ c ∈ p, Host.isVisible c = true) (hhead : p.head? ≠ some '/') (tailText : List Char) :
    ofParts scheme p tailText = .ok ⟨scheme, none, String.ofList p, (tail .other tailText).1,
      (tail .other tailText).2⟩ := by
  unfold ofParts
  simp only [hkind]
  rw [ofOther.eq_def]
  dsimp only
  split
  · exact absurd rfl hhead
  · exact absurd rfl hhead
  · rw [Text.percentEncode_eq_self hp]

end

/-! ## Bodies -/

/-- What stands between the scheme and the query of a URL that has been read. -/
inductive IsBody (scheme : String) : Option Authority → String → Prop
  | network {a : Authority} {p : List Char} (hkind : Kind.ofScheme scheme ≠ .file)
      (ha : a.IsRead (Kind.ofScheme scheme) scheme) (hp : IsPath (Kind.ofScheme scheme) p) :
      IsBody scheme (some a) (String.ofList ('/' :: p))
  | bare {a : Authority} (hkind : Kind.ofScheme scheme = .other) (ha : a.IsRead .other scheme) :
      IsBody scheme (some a) ""
  | file {h : Host} {p : List Char} (hkind : Kind.ofScheme scheme = .file)
      (hh : IsFileHost h) (hp : IsPath .file p) :
      IsBody scheme (some ⟨none, h, none⟩) (String.ofList ('/' :: p))
  | rooted {p : List Char} (hkind : Kind.ofScheme scheme = .other) (hp : IsPath .other p) :
      IsBody scheme none (String.ofList ('/' :: p))
  | flat {p : List Char} (hkind : Kind.ofScheme scheme = .other)
      (hp : ∀ c ∈ p, Host.isVisible c = true ∧ isTail c = false) (hhead : p.head? ≠ some '/') :
      IsBody scheme none (String.ofList p)

/-- What stands between the colon and the query in the text of a URL. -/
def bodyChars (authority : Option Authority) (path : String) : List Char :=
  (match authority with
    | some a => '/' :: '/' :: a.text.toList
    | none => if ['/', '/'].isPrefixOf path.toList then ['/', '.'] else []) ++ path.toList

theorem toList_text (u : Url) : u.text.toList =
    u.scheme.toList ++ ':' :: (bodyChars u.authority u.path ++ tailChars u.query u.fragment) := by
  rw [← toList_tailText]
  obtain ⟨scheme, _ | a, path, query, fragment⟩ := u
  · by_cases hbegins : ['/', '/'].isPrefixOf path.toList <;>
      simp [text, bodyChars, authorityText, hbegins]
  · simp [text, bodyChars, authorityText]

/-- A URL as it is read from its text: a drive that stands first in the path of a file is written
with a colon, and leaves no host. -/
def settled (u : Url) : Url :=
  if u.scheme = "file" ∧ isDrive (firstSegment (u.path.toList.drop 1)) = true then
    { u with
      authority := some ⟨none, .domain "", none⟩
      path := String.ofList ('/' :: settle .file (u.path.toList.drop 1)) }
  else u

theorem settled_of_kind {u : Url} (h : Kind.ofScheme u.scheme ≠ .file) : u.settled = u :=
  if_neg fun hfile => h (by rw [hfile.1]; rfl)

namespace IsBody

variable {scheme path : String} {authority : Option Authority}

theorem ofParts_eq (h : IsBody scheme authority path) (tailText : List Char) :
    ofParts scheme (bodyChars authority path) tailText =
      .ok (settled ⟨scheme, authority, path, (tail (Kind.ofScheme scheme) tailText).1,
        (tail (Kind.ofScheme scheme) tailText).2⟩) := by
  cases h with
  | network hkind ha hp =>
    rw [settled_of_kind hkind, bodyChars, String.toList_ofList]
    exact ofParts_network hkind ha hp tailText
  | bare hkind ha =>
    rw [settled_of_kind (by simp [hkind]), bodyChars, String.toList_empty, List.append_nil, hkind]
    exact ofParts_bare hkind ha tailText
  | file hkind hh hp =>
    rename_i host p
    have hauthority : (Authority.text ⟨none, host, none⟩).toList = host.text.toList := by
      simp [Authority.text]
    obtain rfl := eq_file_of_kind hkind
    rw [bodyChars, String.toList_ofList]
    simp only [hauthority, List.cons_append, ofParts_file hh hp tailText, settled,
      String.toList_ofList, List.drop_one, List.tail_cons, true_and]
    split_ifs with hdrive
    · rfl
    · rw [hp.settle_eq_self fun _ => by simpa using hdrive]
      rfl
  | rooted hkind hp =>
    rw [settled_of_kind (by simp [hkind]), bodyChars, String.toList_ofList, hkind]
    exact ofParts_rooted hkind hp tailText
  | flat hkind hp hhead =>
    rename_i p
    have hbegins : ['/', '/'].isPrefixOf p = false := by
      by_contra hbegins
      obtain ⟨rest, rfl⟩ : ['/', '/'] <+: p := by simpa using hbegins
      exact hhead rfl
    rw [settled_of_kind (by simp [hkind]), bodyChars, String.toList_ofList, hkind]
    simp only [hbegins, Bool.false_eq_true, if_false, List.nil_append]
    exact ofParts_flat hkind (fun c hc => (hp c hc).1) hhead tailText

theorem chars (h : IsBody scheme authority path) :
    (∀ c ∈ path.toList, ' ' ≤ c ∧ isTail c = false) ∧
      ∀ a, authority = some a → ∀ c ∈ a.text.toList, IsInner c := by
  have hrooted : ∀ {kind : Kind} {p : List Char}, IsPath kind p →
      ∀ c ∈ (String.ofList ('/' :: p)).toList, ' ' ≤ c ∧ isTail c = false := by
    intro kind p hp
    rw [String.toList_ofList, List.forall_mem_cons]
    exact ⟨by decide, fun c hc => ⟨(hp.le c hc).1, (hp.le c hc).2.2⟩⟩
  cases h with
  | network _ ha hp => exact ⟨hrooted hp, fun a heq => Option.some.inj heq ▸ ha.inner⟩
  | bare _ ha => exact ⟨by simp, fun a heq => Option.some.inj heq ▸ ha.inner⟩
  | file _ hh hp =>
    refine ⟨hrooted hp, fun a heq => ?_⟩
    obtain rfl := Option.some.inj heq
    simpa [Authority.text] using (fileHost_text hh).2.2
  | rooted _ hp => exact ⟨hrooted hp, by simp⟩
  | flat _ hp _ =>
    rw [String.toList_ofList]
    exact ⟨fun c hc => ⟨le_of_isVisible (hp c hc).1, (hp c hc).2⟩, by simp⟩

/-- A body has no control characters and no sign of a query or a fragment, and spaces only in its
path. -/
theorem le (h : IsBody scheme authority path) :
    ∀ c ∈ bodyChars authority path, (' ' ≤ c ∧ isTail c = false) ∧ (c = ' ' → c ∈ path.toList) := by
  obtain ⟨hpath, hauthority⟩ := h.chars
  have hsigns : ∀ c ∈ ['/', '.'], ' ' ≤ c ∧ isTail c = false ∧ c ≠ ' ' :=
    List.all_iff_forall_prop.1 rfl
  intro c hc
  rcases List.mem_append.1 hc with hc | hc
  · suffices hfront : ' ' ≤ c ∧ isTail c = false ∧ c ≠ ' ' from
      ⟨⟨hfront.1, hfront.2.1⟩, fun heq => absurd heq hfront.2.2⟩
    rcases authority with _ | a
    · simp only at hc
      split_ifs at hc
      · exact hsigns c hc
      · exact absurd hc List.not_mem_nil
    · rcases List.mem_cons.1 hc with rfl | hc
      · exact hsigns '/' List.mem_cons_self
      rcases List.mem_cons.1 hc with rfl | hc
      · exact hsigns '/' List.mem_cons_self
      · obtain ⟨hle, hne, hinner⟩ := (hauthority a rfl c hc).le
        exact ⟨hle, hinner, hne⟩
  · exact ⟨hpath c hc, fun _ => hc⟩

end IsBody

end CameraFleet.Url
