import CameraFleet.Proofs.Url.Authority
import CameraFleet.Text.Ascii

/-!
# Paths are read back

The segments of a path that has been resolved are escaped and none of them is one of dots
(`IsSegment`), so resolving them again leaves them as they are, but for a drive that stands first
(`resolve_eq`). Escaping makes no segment one of dots (`ofSegment?_encodePart`).
-/

namespace CameraFleet

namespace Text

variable {keep : Char → Bool} {cs rest : List Char} {c : Char}

/-- What begins an escaped text and is no percent sign has begun the text. -/
theorem exists_of_percentEncode_eq_cons (h : percentEncode keep cs = c :: rest) (hc : c ≠ '%') :
    ∃ cs', cs = c :: cs' ∧ percentEncode keep cs' = rest := by
  rcases cs with _ | ⟨d, cs⟩
  · contradiction
  rw [percentEncode, List.flatMap_cons] at h
  split_ifs at h
  · obtain ⟨rfl, hrest⟩ := List.cons.inj h
    exact ⟨cs, rfl, hrest⟩
  · obtain ⟨b, bs, hbytes⟩ := List.exists_cons_of_ne_nil (String.utf8EncodeChar_ne_nil (c := d))
    rw [percentEscapeChar, hbytes] at h
    exact absurd (List.cons.inj h).1.symm hc

end Text

namespace Url

/-! ## Segments of dots -/

/-- Dots alone, each perhaps escaped. -/
inductive AreDots : List Char → Prop
  | nil : AreDots []
  | dot {cs : List Char} (h : AreDots cs) : AreDots ('.' :: cs)
  | escape {c : Char} {cs : List Char} (hc : c.toLower = 'e') (h : AreDots cs) :
      AreDots ('%' :: '2' :: c :: cs)

theorem areDots_of_replaceAll {cs : List Char}
    (h : ∀ c ∈ Text.replaceAll ['%', '2', 'e'] ['.'] (cs.map Char.toLower), c = '.') :
    AreDots cs := by
  induction hn : cs.length using Nat.strong_induction_on generalizing cs with
  | _ n ih =>
    rcases cs with _ | ⟨c, cs⟩
    · exact .nil
    rw [List.map_cons, Text.replaceAll] at h
    split_ifs at h with hbegins
    · obtain ⟨rest, hrest⟩ := List.isPrefixOf_iff_prefix.1 hbegins
      rcases cs with _ | ⟨d, _ | ⟨e, cs⟩⟩
      · simp at hrest
      · simp at hrest
      simp only [List.map_cons, List.cons_append, List.nil_append, List.cons.injEq] at hrest
      obtain ⟨hc, hd, he, -⟩ := hrest
      obtain rfl := Text.eq_of_toLower hc.symm (by decide)
      obtain rfl := Text.eq_of_toLower hd.symm (by decide)
      simp only [List.length_cons] at hn
      exact .escape he.symm (ih cs.length (by omega)
        (fun d hd => h d (List.mem_append_right _ hd)) rfl)
    · obtain ⟨hdot, hrest⟩ := List.forall_mem_cons.1 h
      obtain rfl := Text.eq_of_toLower hdot (by decide)
      rw [List.length_cons] at hn
      exact .dot (ih cs.length (by omega) hrest rfl)

theorem areDots_of_ofSegment? {cs : List Char} (h : Dots.ofSegment? cs ≠ none) : AreDots cs := by
  refine areDots_of_replaceAll ?_
  unfold Dots.ofSegment? at h
  dsimp only at h
  split_ifs at h with hone htwo
  · simp [hone]
  · simp [htwo]
  · exact absurd rfl h

theorem keepsEscapes_path : Text.KeepsEscapes (isKept pathEscaped) := by decide

/-- Only a full stop is escaped like one. -/
theorem eq_dot_of_escape {c e : Char} {rest cs : List Char}
    (h : Text.percentEscapeChar c ++ rest = '%' :: '2' :: e :: cs) (he : e.toLower = 'e') :
    c = '.' := by
  have hall : ∀ d < 16, (Text.hexDigitUpper d = '2' → d = 2) ∧
      ((Text.hexDigitUpper d).toLower = 'e' → d = 14) := by decide
  obtain ⟨b, bs, hbytes⟩ := List.exists_cons_of_ne_nil (String.utf8EncodeChar_ne_nil (c := c))
  have hb := b.toNat_lt
  rw [Text.percentEscapeChar, hbytes, List.flatMap_cons] at h
  simp only [Text.percentEscape, List.cons_append, List.cons.injEq, true_and] at h
  obtain ⟨hhigh, hlow, -⟩ := h
  rw [← hlow] at he
  have hhigh := (hall (b.toNat / 16) (by omega)).1 hhigh
  have hlow := (hall (b.toNat % 16) (by omega)).2 he
  have hbyte : b.toNat = 0x2E := by omega
  unfold String.utf8EncodeChar at hbytes
  simp only at hbytes
  split_ifs at hbytes with hone
  · rw [← (List.cons.inj hbytes).1, UInt8.toNat_ofNat', Nat.mod_eq_of_lt (by omega)] at hbyte
    exact Char.ext (UInt32.toNat_inj.1 hbyte)
  all_goals
    rw [← (List.cons.inj hbytes).1, UInt8.toNat_ofNat'] at hbyte
    omega

/-- Where dots come out, nothing has been escaped. -/
theorem eq_of_encodePart_areDots {cs ds : List Char} (h : AreDots ds)
    (hencode : encodePart pathEscaped cs = ds) : cs = ds := by
  induction h generalizing cs with
  | nil =>
    by_contra hne
    exact Text.percentEncode_ne_nil hne hencode
  | dot h ih =>
    obtain ⟨cs, rfl, hrest⟩ := Text.exists_of_percentEncode_eq_cons hencode (by decide)
    rw [ih hrest]
  | escape he h ih =>
    rename_i e ds
    rcases cs with _ | ⟨c, cs⟩
    · contradiction
    rw [encodePart, Text.percentEncode, List.flatMap_cons, ← Text.percentEncode] at hencode
    split_ifs at hencode with hc
    · obtain ⟨rfl, hcs⟩ := List.cons.inj hencode
      have hpercent : e ≠ '%' := by
        rintro rfl
        exact absurd he (by decide)
      obtain ⟨cs₁, rfl, hcs₁⟩ := Text.exists_of_percentEncode_eq_cons hcs (by decide)
      obtain ⟨cs₂, rfl, hcs₂⟩ := Text.exists_of_percentEncode_eq_cons hcs₁ hpercent
      rw [ih hcs₂]
    · obtain rfl := eq_dot_of_escape hencode he
      exact absurd rfl hc

theorem ofSegment?_encodePart {cs : List Char} (h : Dots.ofSegment? cs = none) :
    Dots.ofSegment? (encodePart pathEscaped cs) = none := by
  by_contra hdots
  rw [← eq_of_encodePart_areDots (areDots_of_ofSegment? hdots) rfl] at hdots
  exact hdots h

/-! ## Segments -/

/-- A segment of a path that has been resolved. -/
structure IsSegment (kind : Kind) (cs : List Char) : Prop where
  kept : ∀ c ∈ cs, isKept pathEscaped c = true ∧ kind.isSlash c = false
  noDots : Dots.ofSegment? cs = none

variable {kind : Kind} {cs : List Char}

theorem IsSegment.encodePart_eq (h : IsSegment kind cs) : encodePart pathEscaped cs = cs :=
  Text.percentEncode_eq_self fun c hc => (h.kept c hc).1

theorem isSegment_nil (kind : Kind) : IsSegment kind [] :=
  ⟨by simp, by simp [Dots.ofSegment?, Text.replaceAll]⟩

theorem isSegment_encodePart (hslash : ∀ c ∈ cs, kind.isSlash c = false)
    (hdots : Dots.ofSegment? cs = none) : IsSegment kind (encodePart pathEscaped cs) := by
  refine ⟨fun c hc => ⟨keepsEscapes_path.keep_of_mem hc, ?_⟩, ofSegment?_encodePart hdots⟩
  rcases Text.mem_percentEncode hc with ⟨-, hc⟩ | rfl | ⟨d, hd, rfl⟩
  · exact hslash c hc
  · cases kind <;> rfl
  · have hall : ∀ d < 16, Text.hexDigitUpper d ≠ '/' ∧ Text.hexDigitUpper d ≠ '\\' := by decide
    simp [Kind.isSlash, hall d hd]

theorem lt_of_isAlpha {c : Char} (h : c.isAlpha = true) : c.toNat < 0x80 := by
  rcases Bool.or_eq_true_iff.1 h with h | h
  · have hupper : c.val ≥ 'A'.val ∧ c.val ≤ 'Z'.val := of_decide_eq_true h
    have hle : c.toNat ≤ 90 := UInt32.le_iff_toNat_le.1 hupper.2
    omega
  · have hle : c.toNat ≤ 122 :=
      UInt32.le_iff_toNat_le.1 (of_decide_eq_true (Bool.and_eq_true_iff.1 h).2)
    omega

theorem letter_of_isAlpha {c : Char} (h : c.isAlpha = true) :
    isKept pathEscaped c = true ∧ c ∉ ['/', '\\', '.', '%'] :=
  Text.of_forall_ascii (P := fun c => c.isAlpha = true →
    isKept pathEscaped c = true ∧ c ∉ ['/', '\\', '.', '%']) (by decide +kernel) (lt_of_isAlpha h) h

theorem isSegment_drive (kind : Kind) {c : Char} (hc : c.isAlpha = true) :
    IsSegment kind [c, ':'] := by
  obtain ⟨hkept, hnone⟩ := letter_of_isAlpha hc
  simp only [List.mem_cons, List.not_mem_nil, or_false, not_or] at hnone
  obtain ⟨hslash, hback, hdot, hpercent⟩ := hnone
  refine ⟨?_, ?_⟩
  · simp only [List.forall_mem_cons]
    refine ⟨⟨hkept, by simp [Kind.isSlash, hslash, hback]⟩, ⟨by decide, ?_⟩, List.forall_mem_nil _⟩
    cases kind <;> rfl
  · by_contra hdots
    cases areDots_of_ofSegment? hdots with
    | dot _ => exact hdot rfl

theorem isSegment_segment (isFirst : Bool) (hslash : ∀ c ∈ cs, kind.isSlash c = false)
    (hdots : Dots.ofSegment? cs = none) : IsSegment kind (segment kind isFirst cs) := by
  unfold segment
  split
  · rename_i c d
    split_ifs with hdrive
    · have hc : c.isAlpha = true := by
        have := hdrive.2.2
        simp only [isDrive, Bool.and_eq_true] at this
        exact this.1
      exact isSegment_drive kind hc
    · exact isSegment_encodePart hslash hdots
  · exact isSegment_encodePart hslash hdots

theorem forall_mem_parent {P : List Char → Prop} {path : List (List Char)}
    (h : ∀ piece ∈ path, P piece) : ∀ piece ∈ parent kind path, P piece := by
  unfold parent
  split_ifs
  · exact h
  · exact fun piece hpiece => h piece ((List.dropLast_sublist path).subset hpiece)

/-- Resolving leaves segments of this kind alone. -/
theorem isSegment_of_mem_resolve {segments : List (List Char)} :
    ∀ {path : List (List Char)}, (∀ piece ∈ path, IsSegment kind piece) →
      (∀ piece ∈ segments, ∀ c ∈ piece, kind.isSlash c = false) →
      ∀ piece ∈ resolve kind path segments, IsSegment kind piece := by
  induction segments with
  | nil => exact fun hpath _ => hpath
  | cons cs segments ih =>
    intro path hpath hslash
    obtain ⟨hcs, hsegments⟩ := List.forall_mem_cons.1 hslash
    have hlast : ∀ {path : List (List Char)}, (∀ piece ∈ path, IsSegment kind piece) →
        ∀ piece ∈ (if segments = [] then path ++ [[]] else path), IsSegment kind piece := by
      intro path hpath
      split_ifs
      · simp only [List.forall_mem_append, List.forall_mem_singleton]
        exact ⟨hpath, isSegment_nil kind⟩
      · exact hpath
    rw [resolve]
    split
    · exact ih (hlast hpath) hsegments
    · exact ih (hlast (forall_mem_parent hpath)) hsegments
    · rename_i hdots
      refine ih ?_ hsegments
      simp only [List.forall_mem_append, List.forall_mem_singleton]
      exact ⟨hpath, isSegment_segment _ hcs hdots⟩

/-- Only the bar of a drive that stands first is changed. -/
theorem segment_cases (h : IsSegment kind cs) (isFirst : Bool) : segment kind isFirst cs = cs ∨
    ∃ c d, cs = [c, d] ∧ segment kind isFirst cs = [c, ':'] := by
  unfold segment
  split
  · rename_i c d
    split_ifs
    · exact .inr ⟨c, d, rfl, rfl⟩
    · exact .inl h.encodePart_eq
  · exact .inl h.encodePart_eq

theorem isDrive_segment (h : IsSegment kind cs) (isFirst : Bool) :
    isDrive (segment kind isFirst cs) = isDrive cs := by
  unfold segment
  split
  · rename_i c d
    split_ifs with hdrive
    · obtain ⟨hc, -⟩ := Bool.and_eq_true_iff.1 hdrive.2.2
      rw [hdrive.2.2, isDrive, hc]
      rfl
    · rw [h.encodePart_eq]
  · rw [h.encodePart_eq]

theorem segment_eq_self (h : IsSegment kind cs) {isFirst : Bool}
    (hdrive : kind = .file → isFirst = true → isDrive cs = false) :
    segment kind isFirst cs = cs := by
  unfold segment
  split
  · rw [if_neg, h.encodePart_eq]
    rintro ⟨hfile, hfirst, hcs⟩
    rw [hdrive hfile hfirst] at hcs
    contradiction
  · exact h.encodePart_eq

theorem resolve_of_ne_nil {segments : List (List Char)} :
    ∀ {path : List (List Char)}, path ≠ [] → (∀ piece ∈ segments, IsSegment kind piece) →
      resolve kind path segments = path ++ segments := by
  induction segments with
  | nil => exact fun _ _ => (List.append_nil _).symm
  | cons cs segments ih =>
    intro path hne h
    obtain ⟨hcs, hsegments⟩ := List.forall_mem_cons.1 h
    rw [resolve, hcs.noDots]
    simp only [hne, decide_false]
    rw [segment_eq_self hcs (by simp), ih (by simp) hsegments, List.append_assoc,
      List.singleton_append]

/-- Segments that have been resolved stay, but for a drive that stands first. -/
theorem resolve_eq {segments : List (List Char)}
    (h : ∀ piece ∈ cs :: segments, IsSegment kind piece) :
    resolve kind [] (cs :: segments) = segment kind true cs :: segments := by
  obtain ⟨hcs, hsegments⟩ := List.forall_mem_cons.1 h
  rw [resolve, hcs.noDots]
  simp only [decide_true, List.nil_append]
  rw [resolve_of_ne_nil (List.cons_ne_nil _ _) hsegments, List.singleton_append]

/-! ## Paths -/

/-- What stands behind the first slash of a path that has been resolved. -/
structure IsPath (kind : Kind) (p : List Char) : Prop where
  segments : ∀ piece ∈ Text.splitOn '/' p, IsSegment kind piece
  noSlash : kind = .file → p.head? ≠ some '/'

/-- The first segment of a path behind its slash. -/
def firstSegment (p : List Char) : List Char :=
  p.takeWhile (· ≠ '/')

/-- The path that is read from one that has been resolved: a drive in front is written with a
colon. -/
def settle (kind : Kind) (p : List Char) : List Char :=
  segment kind true (firstSegment p) ++ p.dropWhile (· ≠ '/')

theorem exists_splitOn (p : List Char) : ∃ rest, Text.splitOn '/' p = firstSegment p :: rest ∧
    ∀ first, List.intercalate ['/'] (first :: rest) = first ++ p.dropWhile (· ≠ '/') := by
  have hfirst : '/' ∉ firstSegment p := fun h => by
    simpa using List.mem_takeWhile_imp h
  have hsplit : firstSegment p ++ p.dropWhile (· ≠ '/') = p := List.takeWhile_append_dropWhile
  rcases hbehind : p.dropWhile (· ≠ '/') with _ | ⟨c, behind⟩
  · rw [hbehind, List.append_nil] at hsplit
    refine ⟨[], ?_, fun first => ?_⟩
    · rw [hsplit] at hfirst
      rw [hsplit, Text.splitOn_of_not_mem hfirst]
    · rw [List.intercalate_singleton, List.append_nil]
  · obtain rfl : c = '/' := by
      have hhead := List.head?_dropWhile_not (fun c : Char => decide (c ≠ '/')) p
      rw [hbehind] at hhead
      simpa using hhead
    refine ⟨Text.splitOn '/' behind, ?_, fun first => ?_⟩
    · calc Text.splitOn '/' p = Text.splitOn '/' (firstSegment p ++ '/' :: behind) := by
            rw [← hbehind, hsplit]
        _ = firstSegment p :: Text.splitOn '/' behind := by
            rw [Text.splitOn_append, Text.splitOn_of_not_mem hfirst, List.singleton_append]
    · rw [List.intercalate_cons_of_ne_nil (Text.splitOn_ne_nil _ _), Text.splitOn_eq,
        List.intercalate_splitOn, List.append_assoc, List.singleton_append]

theorem mem_of_mem_splitOn_dropWhile {sep : Char} {piece : List Char} : ∀ {cs : List Char},
    piece ∈ Text.splitOn sep (cs.dropWhile (· = sep)) → piece ∈ Text.splitOn sep cs
  | [], h => h
  | c :: cs, h => by
    by_cases hc : c = sep
    · subst hc
      rw [List.dropWhile_cons_of_pos (by simp)] at h
      have hsplit : Text.splitOn c (c :: cs) = [] :: Text.splitOn c cs :=
        Text.splitOn_append c [] cs
      rw [hsplit]
      exact List.mem_cons_of_mem _ (mem_of_mem_splitOn_dropWhile h)
    · rwa [List.dropWhile_cons_of_neg (by simpa using hc)] at h

/-- A path that is read is one that has been resolved. -/
theorem exists_pathOf (kind : Kind) (cs : List Char) :
    ∃ p, pathOf kind cs = String.ofList ('/' :: p) ∧ IsPath kind p := by
  have hslash : ∀ piece ∈ pieces kind cs, ∀ c ∈ piece, kind.isSlash c = false := by
    intro piece hpiece c hc
    obtain ⟨hmem, hne⟩ := Text.mem_of_mem_splitOn hpiece hc
    obtain ⟨d, -, rfl⟩ := List.mem_map.1 hmem
    by_contra hslash
    split_ifs at hslash hne <;> simp_all
  have hsegments : ∀ piece ∈ resolve kind [] (pieces kind cs), IsSegment kind piece :=
    isSegment_of_mem_resolve (by simp) hslash
  have hpath : ∀ piece ∈
      Text.splitOn '/' (List.intercalate ['/'] (resolve kind [] (pieces kind cs))),
      IsSegment kind piece := by
    generalize resolve kind [] (pieces kind cs) = segments at hsegments
    rcases segments with _ | ⟨first, rest⟩
    · simpa [Text.splitOn] using isSegment_nil kind
    · rw [Text.splitOn_eq, List.splitOn_intercalate '/' _ (List.cons_ne_nil _ _)]
      · exact hsegments
      · intro piece hpiece hc
        have := ((hsegments piece hpiece).kept '/' hc).2
        simp [Kind.isSlash] at this
  unfold pathOf
  dsimp only
  refine ⟨_, rfl, ?_, ?_⟩
  · split_ifs
    · exact fun piece hpiece => hpath piece (mem_of_mem_splitOn_dropWhile hpiece)
    · exact hpath
  · intro hfile
    rw [if_pos hfile]
    intro hhead
    have hnot := List.head?_dropWhile_not (fun c : Char => decide (c = '/'))
      (List.intercalate ['/'] (resolve kind [] (pieces kind cs)))
    rw [hhead] at hnot
    simp at hnot

theorem IsPath.mem {p : List Char} (h : IsPath kind p) {c : Char} (hc : c ∈ p) :
    c = '/' ∨ isKept pathEscaped c = true ∧ kind.isSlash c = false := by
  have hjoin : List.intercalate ['/'] (Text.splitOn '/' p) = p := by
    rw [Text.splitOn_eq, List.intercalate_splitOn]
  rw [← hjoin] at hc
  rcases Text.mem_intercalate hc with hc | ⟨piece, hpiece, hc⟩
  · exact .inl (List.mem_singleton.1 hc)
  · exact .inr ((h.segments piece hpiece).kept c hc)

theorem IsPath.pieces_eq {p : List Char} (h : IsPath kind p) :
    pieces kind p = Text.splitOn '/' p := by
  have hmap : p.map (fun c => if kind.isSlash c then '/' else c) = p := by
    refine (List.map_congr_left fun c hc => ?_).trans (List.map_id p)
    rcases h.mem hc with rfl | ⟨-, hslash⟩
    · simp
    · simp [hslash]
  rw [pieces, hmap]

theorem IsPath.isSegment_firstSegment {p : List Char} (h : IsPath kind p) :
    IsSegment kind (firstSegment p) := by
  obtain ⟨rest, hsplit, -⟩ := exists_splitOn p
  exact h.segments _ (hsplit ▸ List.mem_cons_self)

theorem firstSegment_append (p : List Char) :
    firstSegment p ++ p.dropWhile (· ≠ '/') = p :=
  List.takeWhile_append_dropWhile

theorem IsPath.settle_eq_self {p : List Char} (h : IsPath kind p)
    (hdrive : kind = .file → isDrive (firstSegment p) = false) : settle kind p = p := by
  rw [settle, segment_eq_self h.isSegment_firstSegment fun hfile _ => hdrive hfile,
    firstSegment_append]

theorem IsPath.settle_cases {p : List Char} (h : IsPath kind p) : settle kind p = p ∨
    ∃ c d behind, d ≠ '/' ∧ p = c :: d :: behind ∧ settle kind p = c :: ':' :: behind := by
  rcases segment_cases h.isSegment_firstSegment true with heq | ⟨c, d, hfirst, heq⟩
  · left
    rw [settle, heq, firstSegment_append]
  · right
    have hd : d ∈ firstSegment p := hfirst ▸ List.mem_cons_of_mem c List.mem_cons_self
    refine ⟨c, d, p.dropWhile (· ≠ '/'), by simpa using List.mem_takeWhile_imp hd, ?_, ?_⟩
    · conv_lhs => rw [← firstSegment_append p, hfirst]
      rfl
    · rw [settle, heq]
      rfl

theorem IsPath.length_settle {p : List Char} (h : IsPath kind p) :
    (settle kind p).length = p.length := by
  rcases h.settle_cases with heq | ⟨c, d, behind, -, rfl, heq⟩
  · rw [heq]
  · rw [heq, List.length_cons, List.length_cons, List.length_cons, List.length_cons]

theorem IsPath.head?_settle {p : List Char} (h : IsPath kind p) :
    (settle kind p).head? = p.head? := by
  rcases h.settle_cases with heq | ⟨c, d, behind, -, rfl, heq⟩
  · rw [heq]
  · rw [heq, List.head?_cons, List.head?_cons]

/-- A slash at the end stays. -/
theorem IsPath.getLast?_settle {p : List Char} (h : IsPath kind p)
    (hlast : ('/' :: p).getLast? = some '/') : ('/' :: settle kind p).getLast? = some '/' := by
  rcases h.settle_cases with heq | ⟨c, d, behind, hd, rfl, heq⟩
  · rwa [heq]
  · rw [heq]
    rcases behind with _ | ⟨e, behind⟩
    · exact absurd (Option.some.inj hlast) hd
    · simpa only [List.getLast?_cons_cons] using hlast

/-- A path that has been resolved is read as it is, but for a drive in front. -/
theorem IsPath.pathOf_eq {p : List Char} (h : IsPath kind p) :
    pathOf kind p = String.ofList ('/' :: settle kind p) := by
  obtain ⟨rest, hsplit, hjoin⟩ := exists_splitOn p
  have hsegments := h.segments
  rw [hsplit] at hsegments
  have hresolve : resolve kind [] (pieces kind p) = segment kind true (firstSegment p) :: rest := by
    rw [h.pieces_eq, hsplit, resolve_eq hsegments]
  unfold pathOf
  simp only [hresolve, hjoin]
  rw [← settle]
  split_ifs with hfile
  · have hhead : ∀ c, (settle kind p).head? = some c → decide (c = '/') = false := by
      rw [h.head?_settle]
      exact fun c hc => decide_eq_false fun heq => h.noSlash hfile (heq ▸ hc)
    have hdrop : ([] ++ settle kind p).dropWhile (· = '/') = settle kind p :=
      Text.dropWhile_append_of_all (by simp) hhead
    rw [List.nil_append] at hdrop
    rw [hdrop]
  · rfl

theorem IsPath.pathBehind_eq {p : List Char} (h : IsPath kind p) :
    pathBehind kind ('/' :: p) = String.ofList ('/' :: settle kind p) := by
  have hslash : kind.isSlash '/' = true := by simp [Kind.isSlash]
  rw [pathBehind, if_pos hslash, h.pathOf_eq]

/-- A dot in front of a path is left out. -/
theorem pathOf_here (kind : Kind) (cs : List Char) :
    pathOf kind ('.' :: '/' :: cs) = pathOf kind cs := by
  have hpieces : pieces kind ('.' :: '/' :: cs) = ['.'] :: pieces kind cs := by
    have hdot : kind.isSlash '.' = false := by cases kind <;> rfl
    simp only [pieces, List.map_cons, hdot, Bool.false_eq_true, if_false, ite_self,
      show kind.isSlash '/' = true from by simp [Kind.isSlash]]
    exact Text.splitOn_append '/' ['.'] _
  have hhere : Dots.ofSegment? ['.'] = some .here := by
    simp [Dots.ofSegment?, Text.replaceAll]
  have hresolve : resolve kind [] (['.'] :: pieces kind cs) = resolve kind [] (pieces kind cs) := by
    rw [resolve, hhere]
    simp only [show pieces kind cs ≠ [] from Text.splitOn_ne_nil _ _, if_false]
  unfold pathOf
  rw [hpieces, hresolve]

theorem isPath_nil (kind : Kind) : IsPath kind [] :=
  ⟨by simpa [Text.splitOn] using isSegment_nil kind, by simp⟩

theorem exists_pathBehind (kind : Kind) (cs : List Char) :
    (kind = .other ∧ pathBehind kind cs = "") ∨
      ∃ p, pathBehind kind cs = String.ofList ('/' :: p) ∧ IsPath kind p := by
  unfold pathBehind
  split
  · split_ifs with hother
    · exact .inl ⟨hother, rfl⟩
    · exact .inr ⟨[], rfl, isPath_nil kind⟩
  · split_ifs
    · exact .inr (exists_pathOf kind _)
    · exact .inr (exists_pathOf kind _)

end Url

end CameraFleet
