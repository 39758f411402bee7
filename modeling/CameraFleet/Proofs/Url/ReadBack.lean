import CameraFleet.Proofs.Url.Parts

/-!
# Reading a URL back

Whatever a text is read as, the parts of the URL are parts that have been read
(`isRead_of_ofText`), and the text of such a URL is read as the URL again (`IsRead.ofText_text`),
settled.
-/

namespace CameraFleet.Url

/-- A URL that has been read. -/
structure IsRead (u : Url) : Prop where
  scheme : IsScheme u.scheme
  body : IsBody u.scheme u.authority u.path
  tail : IsTailOf (Kind.ofScheme u.scheme) u.query u.fragment
  last : u.path.toList.getLast? = some ' ' → tailChars u.query u.fragment ≠ []

/-- A body is read with whatever stands behind it. -/
theorem IsBody.ofText_eq {scheme path : String} {authority : Option Authority}
    {tailText : List Char} (h : IsBody scheme authority path) (hscheme : IsScheme scheme)
    (htail : IsTailText tailText) (hlast : (path.toList ++ tailText).getLast? ≠ some ' ') :
    ofText (String.ofList (scheme.toList ++ ':' :: (bodyChars authority path ++ tailText))) =
      .ok (settled ⟨scheme, authority, path, (tail (Kind.ofScheme scheme) tailText).1,
        (tail (Kind.ofScheme scheme) tailText).2⟩) := by
  rw [ofText_eq_ofParts hscheme (fun c hc => (h.le c hc).1) htail, h.ofParts_eq]
  intro hspace
  by_cases hne : path.toList ++ tailText = []
  · obtain ⟨hpath, rfl⟩ := List.append_eq_nil_iff.1 hne
    rw [List.append_nil] at hspace
    have hmem := (h.le ' ' (List.mem_of_getLast? hspace)).2 rfl
    rw [hpath] at hmem
    contradiction
  · obtain ⟨front, hbody⟩ : ∃ front, bodyChars authority path = front ++ path.toList := ⟨_, rfl⟩
    rw [hbody, List.append_assoc, List.getLast?_append_of_ne_nil _ hne] at hspace
    exact hlast hspace

theorem IsRead.last_append {u : Url} (h : u.IsRead) :
    (u.path.toList ++ tailChars u.query u.fragment).getLast? ≠ some ' ' := by
  by_cases hne : tailChars u.query u.fragment = []
  · rw [hne, List.append_nil]
    exact fun hspace => h.last hspace hne
  · rw [List.getLast?_append_of_ne_nil _ hne]
    exact fun hspace => (h.tail.le ' ' (List.mem_of_getLast? hspace)).2 rfl

/-- The text of a URL that has been read is read as the URL. -/
theorem IsRead.ofText_text {u : Url} (h : u.IsRead) : ofText u.text = .ok u.settled := by
  rw [← String.ofList_toList (s := u.text), toList_text,
    h.body.ofText_eq h.scheme h.tail.isTailText h.last_append, h.tail.tail_eq]

/-! ## What is read -/

section

variable {kind : Kind} {scheme : String} {cs tailText : List Char} {u : Url}

theorem isFileHost_of_fileHost {h : Host} (hread : fileHost cs = .ok h) : IsFileHost h := by
  unfold fileHost at hread
  split_ifs at hread
  · exact .inl (Except.ok.inj hread).symm
  · rcases hspecial : Host.special cs with e | host
    · rw [hspecial] at hread
      contradiction
    · rw [hspecial, Except.map] at hread
      obtain rfl := Except.ok.inj hread
      split_ifs with hlocal
      · exact .inl rfl
      · exact .inr ⟨Host.isSpecial_of_special hspecial, hlocal⟩

theorem exists_of_fileHost {f : Host → Url}
    (h : (fileHost cs >>= fun host => .ok (f host)) = .ok u) :
    ∃ host, IsFileHost host ∧ u = f host := by
  rcases hhost : fileHost cs with e | host
  · rw [hhost] at h
    contradiction
  · rw [hhost] at h
    exact ⟨host, isFileHost_of_fileHost hhost, (Except.ok.inj h).symm⟩

/-- A path behind a slash does not end in a space. -/
theorem last_of_isPath {p : List Char} (hp : IsPath kind p) (query fragment : Option String) :
    (String.ofList ('/' :: p)).toList.getLast? = some ' ' → tailChars query fragment ≠ [] := by
  intro hspace
  rw [String.toList_ofList] at hspace
  rcases List.mem_cons.1 (List.mem_of_getLast? hspace) with h | h
  · exact absurd h (by decide)
  · exact absurd rfl (hp.le ' ' h).2.1

theorem isRead_of_withAuthority (hscheme : IsScheme scheme) (hkind : Kind.ofScheme scheme = kind)
    (hfile : kind ≠ .file) (h : withAuthority kind scheme cs tailText = .ok u) : u.IsRead := by
  subst hkind
  unfold withAuthority at h
  dsimp only at h
  split_ifs at h with hat
  · contradiction
  rcases hread : readAuthority (Kind.ofScheme scheme) scheme
    (cs.takeWhile (!(Kind.ofScheme scheme).isSlash ·)) with e | ⟨a, rest⟩
  · rw [hread] at h
    contradiction
  · rw [hread] at h
    obtain rfl := Except.ok.inj h
    have ha := (isRead_of_readAuthority hread).1
    have htail := isTailOf_tail (Kind.ofScheme scheme) tailText
    rcases exists_pathBehind (Kind.ofScheme scheme)
      (rest ++ cs.dropWhile (!(Kind.ofScheme scheme).isSlash ·)) with
      ⟨hother, hpath⟩ | ⟨p, hpath, hp⟩
    · rw [hother] at ha
      refine ⟨hscheme, ?_, htail, ?_⟩
      · simp only [hpath]
        exact .bare hother ha
      · simp [hpath]
    · refine ⟨hscheme, ?_, htail, ?_⟩
      · simp only [hpath]
        exact .network hfile ha hp
      · simp only [hpath]
        exact last_of_isPath hp _ _

theorem isScheme_file : IsScheme "file" :=
  ⟨⟨'f', ['i', 'l', 'e'], rfl, rfl⟩, List.all_iff_forall_prop.1 rfl, rfl⟩

theorem isRead_file {host : Host} {path : String} (hhost : IsFileHost host)
    (hpath : ∃ p, path = String.ofList ('/' :: p) ∧ IsPath .file p) :
    IsRead ⟨"file", some ⟨none, host, none⟩, path, (tail .file tailText).1,
      (tail .file tailText).2⟩ := by
  obtain ⟨p, rfl, hp⟩ := hpath
  exact ⟨isScheme_file, .file rfl hhost hp,
    isTailOf_tail .file tailText, last_of_isPath hp _ _⟩

theorem exists_path_of_file (cs : List Char) :
    ∃ p, pathBehind .file cs = String.ofList ('/' :: p) ∧ IsPath .file p :=
  (exists_pathBehind .file cs).resolve_left fun h => Kind.noConfusion h.1

theorem isRead_of_ofFile (h : ofFile cs tailText = .ok u) : u.IsRead := by
  have hempty : IsFileHost (.domain "") := .inl rfl
  unfold ofFile at h
  dsimp only at h
  split at h
  · rename_i a b rest
    split_ifs at h
    · obtain rfl := Except.ok.inj h
      exact isRead_file hempty (exists_pathOf .file rest)
    · obtain ⟨host, -, rfl⟩ := exists_of_fileHost h
      exact isRead_file hempty (exists_path_of_file _)
    · obtain ⟨host, hhost, rfl⟩ := exists_of_fileHost h
      exact isRead_file hhost (exists_path_of_file _)
    · obtain rfl := Except.ok.inj h
      exact isRead_file hempty (exists_path_of_file _)
  · obtain rfl := Except.ok.inj h
    exact isRead_file hempty (exists_path_of_file _)

/-- A query or a fragment is read behind its sign. -/
theorem tailChars_tail_ne_nil (kind : Kind) {c : Char} {rest : List Char} (hc : isTail c = true) :
    tailChars (tail kind (c :: rest)).1 (tail kind (c :: rest)).2 ≠ [] := by
  rw [isTail, Bool.or_eq_true, decide_eq_true_eq, decide_eq_true_eq] at hc
  rcases hc with rfl | rfl
  · have hfront : ∃ query, (Text.cutAt '#' ('?' :: rest)).1 = '?' :: query := by
      unfold Text.cutAt
      split
      · exact ⟨rest, rfl⟩
      · rw [List.takeWhile_cons_of_pos (by decide)]
        exact ⟨_, rfl⟩
    obtain ⟨query, hquery⟩ := hfront
    simp [tail, hquery, tailChars]
  · have hcut : Text.cutAt '#' ('#' :: rest) = ([], some rest) :=
      Text.cutAt_append List.not_mem_nil rest
    simp [tail, hcut, tailChars]

theorem last_of_percentEncode {keep : Char → Bool}
    (h : (Text.percentEncode keep cs).getLast? = some ' ') : cs.getLast? = some ' ' := by
  rcases cs.eq_nil_or_concat with rfl | ⟨front, c, rfl⟩
  · contradiction
  rw [List.concat_eq_append, Text.percentEncode, List.flatMap_append, List.flatMap_singleton] at h
  rw [List.concat_eq_append, List.getLast?_concat]
  split_ifs at h with hkeep
  · rwa [List.getLast?_concat] at h
  · have hne : Text.percentEscapeChar c ≠ [] := by
      simpa [Text.percentEncode, hkeep] using
        (Text.percentEncode_ne_nil (List.cons_ne_nil c []) : Text.percentEncode keep [c] ≠ [])
    rw [List.getLast?_append_of_ne_nil _ hne] at h
    rcases Text.isEscapeText_of_mem (List.mem_of_getLast? h) with heq | ⟨d, hd, heq⟩
    · exact absurd heq (by decide)
    · have hall : ∀ d < 16, ' ' ≠ Text.hexDigitUpper d := by decide
      exact absurd heq (hall d hd)

theorem isRead_of_ofOther (hscheme : IsScheme scheme) (hkind : Kind.ofScheme scheme = .other)
    (hcs : ∀ c ∈ cs, isTail c = false) (hlast : cs.getLast? = some ' ' → tailText ≠ [])
    (htail : ∀ c, tailText.head? = some c → isTail c = true)
    (h : ofOther scheme cs tailText = .ok u) : u.IsRead := by
  have hparts := isTailOf_tail .other tailText
  rw [← hkind] at hparts
  rw [ofOther.eq_def] at h
  dsimp only at h
  split at h
  · exact isRead_of_withAuthority hscheme hkind (by simp) h
  · obtain rfl := Except.ok.inj h
    rename_i rest _
    obtain ⟨p, hpath, hp⟩ := exists_pathOf .other rest
    rw [hpath]
    refine ⟨hscheme, .rooted hkind hp, ?_, last_of_isPath hp _ _⟩
    rwa [hkind] at hparts ⊢
  · rename_i hdouble hslash
    obtain rfl := Except.ok.inj h
    have hchars : ∀ c ∈ Text.percentEncode Host.isVisible cs,
        Host.isVisible c = true ∧ isTail c = false := by
      intro c hc
      refine ⟨Host.keepsEscapes_isVisible.keep_of_mem hc, ?_⟩
      rcases Text.mem_percentEncode hc with ⟨-, hc⟩ | rfl | ⟨d, hd, rfl⟩
      · exact hcs c hc
      · rfl
      · have hall : ∀ d < 16, isTail (Text.hexDigitUpper d) = false := by decide
        exact hall d hd
    have hhead : (Text.percentEncode Host.isVisible cs).head? ≠ some '/' := by
      intro hhead
      obtain ⟨rest, hrest⟩ := List.head?_eq_some_iff.1 hhead
      obtain ⟨cs', rfl, -⟩ := Text.exists_of_percentEncode_eq_cons hrest (by decide)
      exact hslash cs' rfl
    refine ⟨hscheme, .flat hkind hchars hhead, ?_, ?_⟩
    · rwa [hkind] at hparts ⊢
    · rw [String.toList_ofList]
      intro hspace
      obtain ⟨c, rest, rfl⟩ := List.exists_cons_of_ne_nil (hlast (last_of_percentEncode hspace))
      exact tailChars_tail_ne_nil .other (htail c rfl)

end

theorem not_of_getLast?_stripBy {p : Char → Bool} {cs : List Char} {c : Char}
    (h : (Text.stripBy p cs).getLast? = some c) : p c = false := by
  rw [Text.stripBy, List.getLast?_reverse] at h
  have hnot := List.head?_dropWhile_not p (cs.dropWhile p).reverse
  rwa [h] at hnot

/-- What counts of a text does not end in a space. -/
theorem getLast?_passed (cs : List Char) :
    ((Text.stripBy isMargin cs).filter (!isBreak ·)).getLast? ≠ some ' ' := by
  have hlast : ∀ c, (Text.stripBy isMargin cs).getLast? = some c → isMargin c = false :=
    fun _ => not_of_getLast?_stripBy
  rcases (Text.stripBy isMargin cs).eq_nil_or_concat with heq | ⟨front, c, heq⟩
  · simp [heq]
  · rw [List.concat_eq_append] at heq
    rw [heq] at hlast ⊢
    obtain ⟨hle, hne⟩ := le_of_isMargin (hlast c List.getLast?_concat)
    rw [List.filter_append, List.filter_cons_of_pos (by simp [isBreak_of_le hle]), List.filter_nil,
      List.getLast?_concat]
    exact fun heq => hne (Option.some.inj heq)

/-- Whatever a text is read as, this is a URL that has been read. -/
theorem isRead_of_ofText {s : String} {u : Url} (h : ofText s = .ok u) : u.IsRead := by
  have hend := getLast?_passed s.toList
  unfold ofText at h
  generalize (Text.stripBy isMargin s.toList).filter (!isBreak ·) = passed at h hend
  rcases hscheme? : scheme? passed with _ | ⟨scheme, rest⟩
  · rw [hscheme?] at h
    contradiction
  rw [hscheme?] at h
  dsimp only at h
  have hscheme := isScheme_of_scheme? hscheme?
  rcases hkind : Kind.ofScheme scheme with _ | _ | _
  · rw [hkind] at h
    exact isRead_of_withAuthority hscheme hkind (by simp) h
  · rw [hkind] at h
    exact isRead_of_ofFile h
  · rw [hkind] at h
    refine isRead_of_ofOther hscheme hkind (fun c hc => ?_) (fun hspace => ?_) (fun c hc => ?_) h
    · simpa using List.mem_takeWhile_imp hc
    · intro hnil
      have hrest : rest.takeWhile (!isTail ·) = rest := by
        conv_rhs => rw [← List.takeWhile_append_dropWhile (p := (!isTail ·)) (l := rest), hnil,
          List.append_nil]
      obtain ⟨front, rfl⟩ := exists_of_scheme? hscheme?
      rw [hrest] at hspace
      have hne : rest ≠ [] := by
        rintro rfl
        contradiction
      rw [← List.singleton_append, ← List.append_assoc,
        List.getLast?_append_of_ne_nil _ hne] at hend
      exact hend hspace
    · have hnot := List.head?_dropWhile_not (!isTail ·) rest
      rw [hc] at hnot
      simpa using hnot

end CameraFleet.Url
