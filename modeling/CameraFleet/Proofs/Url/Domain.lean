import Mathlib.Data.Bool.AllAny
import CameraFleet.Proofs.Text.Split
import CameraFleet.Proofs.Url.Punycode
import CameraFleet.Text.Ascii
import CameraFleet.Url.Domain

/-!
# Names in ASCII stay as they are

The name in ASCII of a host is its own name in ASCII (`toAscii?_eq_self`). Folding a character
leaves nothing to fold, and a label that has been written in Punycode is one that Punycode reads.
-/

namespace CameraFleet.Url.Domain

section

variable {α β : Type} {f : α → Option β}

theorem mapM_eq_map {g : α → β} : ∀ {as : List α}, (∀ a ∈ as, f a = some (g a)) →
    as.mapM f = some (as.map g)
  | [], _ => rfl
  | a :: as, h => by
    obtain ⟨ha, has⟩ := List.forall_mem_cons.1 h
    rw [List.mapM_cons, ha, mapM_eq_map has]
    rfl

theorem of_mapM_cons {a : α} {as : List α} {bs : List β} (h : (a :: as).mapM f = some bs) :
    ∃ b rest, bs = b :: rest ∧ f a = some b ∧ as.mapM f = some rest := by
  rw [List.mapM_cons] at h
  rcases ha : f a with _ | b
  · simp [ha] at h
  rcases has : as.mapM f with _ | rest
  · simp [ha, has] at h
  exact ⟨b, rest, by simpa [ha, has] using h.symm, rfl, rfl⟩

theorem length_of_mapM : ∀ {as : List α} {bs : List β}, as.mapM f = some bs →
    bs.length = as.length
  | [], bs, h => by
    obtain rfl : bs = [] := by simpa using h.symm
    rfl
  | a :: as, bs, h => by
    obtain ⟨b, rest, rfl, -, has⟩ := of_mapM_cons h
    rw [List.length_cons, List.length_cons, length_of_mapM has]

theorem exists_of_mem_mapM : ∀ {as : List α} {bs : List β}, as.mapM f = some bs →
    ∀ b ∈ bs, ∃ a ∈ as, f a = some b
  | [], bs, h, b, hb => by
    obtain rfl : bs = [] := by simpa using h.symm
    exact absurd hb List.not_mem_nil
  | a :: as, bs, h, b, hb => by
    obtain ⟨b', rest, rfl, ha, has⟩ := of_mapM_cons h
    rcases List.mem_cons.1 hb with rfl | hb
    · exact ⟨a, List.mem_cons_self, ha⟩
    · obtain ⟨a', hmem, hread⟩ := exists_of_mem_mapM has b hb
      exact ⟨a', List.mem_cons_of_mem a hmem, hread⟩

end

/-! ## Characters -/

/-- A character that names have as it is. -/
def IsFolded (c : Char) : Prop := fold? c = some [c]

instance (c : Char) : Decidable (IsFolded c) :=
  inferInstanceAs (Decidable (_ = _))

theorem isFolded_toLower {c : Char} (h : c.toNat < 0x80) : IsFolded c.toLower :=
  Text.of_forall_ascii (P := fun c => IsFolded c.toLower) (by decide +kernel) h

theorem capitalOffset_bounds {n : Nat} (h : capitalOffset n ≠ 0) :
    0xE0 ≤ n + capitalOffset n ∧ n + capitalOffset n ≤ 0x45F ∧ n + capitalOffset n ≠ 0x34F ∧
      capitalOffset (n + capitalOffset n) = 0 := by
  unfold capitalOffset at h ⊢
  split_ifs at h ⊢ <;> omega

theorem toNat_ofNat {n : Nat} (h : n.isValidChar) : (Char.ofNat n).toNat = n := by
  rw [Char.ofNat, dif_pos h]
  rfl

theorem isFolded_of_small {n : Nat} (hn : 0xE0 ≤ n ∧ n ≤ 0x45F ∧ n ≠ 0x34F)
    (h : capitalOffset n = 0) : IsFolded (Char.ofNat n) := by
  have hnat : (Char.ofNat n).toNat = n := toNat_ofNat (.inl (by omega))
  have hignored : isIgnored n = false := by
    simp [isIgnored]
    omega
  have hallowed : isDisallowed n = false := by
    simp [isDisallowed]
    omega
  simp only [IsFolded, fold?, hnat, hignored, hallowed, h]
  rw [if_neg (by omega), if_neg (by simp), if_neg (by simp), if_neg (by omega), if_neg (by omega)]
  rfl

theorem isFolded_of_fold? {c d : Char} {cs : List Char} (h : fold? c = some cs) (hd : d ∈ cs) :
    IsFolded d := by
  have hfold := h
  simp only [fold?] at h
  split_ifs at h with hascii hignored hdisallowed hdot hwide
  · obtain rfl := Option.some.inj h
    obtain rfl := List.mem_singleton.1 hd
    exact isFolded_toLower hascii
  · obtain rfl := Option.some.inj h
    exact absurd hd List.not_mem_nil
  · obtain rfl := Option.some.inj h
    obtain rfl := List.mem_singleton.1 hd
    rfl
  · obtain rfl := Option.some.inj h
    rw [List.mem_singleton.1 hd]
    have hsmall : c.toNat - 0xFEE0 < 0x80 := by omega
    have hnat : (Char.ofNat (c.toNat - 0xFEE0)).toNat = c.toNat - 0xFEE0 :=
      toNat_ofNat (.inl (by omega))
    exact isFolded_toLower (by rwa [hnat])
  · obtain rfl := Option.some.inj h
    obtain rfl := List.mem_singleton.1 hd
    by_cases hzero : capitalOffset c.toNat = 0
    · rw [hzero, Nat.add_zero, Char.ofNat_toNat] at hfold ⊢
      exact hfold
    · obtain ⟨hlow, hhigh, hne, hsmall⟩ := capitalOffset_bounds hzero
      exact isFolded_of_small ⟨hlow, hhigh, hne⟩ hsmall

/-! ## Labels -/

theorem isFolded_digit {c : Char} (h : Punycode.IsDigit c) :
    c.toNat < 0x80 ∧ c ≠ '.' ∧ IsFolded c := by
  have hall : ∀ d < 36, (Punycode.digit d).toNat < 0x80 ∧ Punycode.digit d ≠ '.' ∧
      IsFolded (Punycode.digit d) := by decide +kernel
  obtain ⟨d, hd, rfl⟩ := h
  exact hall d hd

/-- A label in ASCII, as names have it. -/
structure IsLabel (label : List Char) : Prop where
  ascii : ∀ c ∈ label, c.toNat < 0x80 ∧ c ≠ '.' ∧ IsFolded c
  label?_eq : label? label = some label

theorem label?_of_forall {cs : List Char} (h : ∀ c ∈ cs, c.toNat < 0x80) : label? cs =
    if punycodePrefix.isPrefixOf cs ∧ !isPunycode (cs.drop 4) then none else some cs := by
  rw [label?, if_pos (by simpa using h)]

theorem isLabel_of_label? {cs label : List Char} (hcs : ∀ c ∈ cs, c ≠ '.' ∧ IsFolded c)
    (h : label? cs = some label) : IsLabel label := by
  by_cases hascii : ∀ c ∈ cs, c.toNat < 0x80
  · have hsame := h
    rw [label?_of_forall hascii] at h
    split_ifs at h
    obtain rfl := Option.some.inj h
    exact ⟨fun c hc => ⟨hascii c hc, hcs c hc⟩, hsame⟩
  · rw [label?, if_neg (by simpa using hascii)] at h
    obtain rfl := Option.some.inj h
    have hbegins : ∀ c ∈ punycodePrefix, c.toNat < 0x80 ∧ c ≠ '.' ∧ IsFolded c :=
      List.all_iff_forall_prop.1 rfl
    have hchars : ∀ c ∈ punycodePrefix ++ Punycode.encode cs,
        c.toNat < 0x80 ∧ c ≠ '.' ∧ IsFolded c := by
      intro c hc
      rcases List.mem_append.1 hc with hc | hc
      · exact hbegins c hc
      · rcases Punycode.mem_encode hc with ⟨hc, hlt⟩ | rfl | hc
        · exact ⟨hlt, hcs c hc⟩
        · decide
        · exact isFolded_digit hc
    have hpunycode : isPunycode (Punycode.encode cs) = true := by
      have hfolded : cs.all (fun c => decide (fold? c = some [c])) = true :=
        List.all_eq_true.2 fun c hc => decide_eq_true (hcs c hc).2
      rw [isPunycode, Punycode.decode?_encode]
      simp only [hfolded, decide_true, Bool.and_true, List.any_eq_true, decide_eq_true_eq]
      simpa using hascii
    refine ⟨hchars, ?_⟩
    rw [label?_of_forall fun c hc => (hchars c hc).1, if_neg]
    rintro ⟨-, hnot⟩
    rw [List.drop_left' (show punycodePrefix.length = 4 from rfl), hpunycode] at hnot
    exact Bool.noConfusion hnot

/-! ## Names -/

/-- A name in ASCII, and its labels. -/
theorem exists_labels {cs name : List Char} (h : toAscii? cs = some name) :
    name.any isForbidden = false ∧
      ∃ labels, labels ≠ [] ∧ name = joinLabels labels ∧ ∀ label ∈ labels, IsLabel label := by
  simp only [toAscii?, Option.bind_eq_bind, Option.bind_eq_some_iff] at h
  obtain ⟨folded, hfolded, labels, hlabels, hname⟩ := h
  split_ifs at hname with hforbidden
  obtain rfl := Option.some.inj hname
  have hchars : ∀ c ∈ folded.flatten, IsFolded c := by
    intro c hc
    obtain ⟨piece, hpiece, hc⟩ := List.mem_flatten.1 hc
    obtain ⟨d, -, hfold⟩ := exists_of_mem_mapM hfolded piece hpiece
    exact isFolded_of_fold? hfold hc
  refine ⟨by simpa using hforbidden, labels, ?_, rfl, fun label hlabel => ?_⟩
  · rintro rfl
    have hlength := length_of_mapM hlabels
    exact Text.splitOn_ne_nil '.' folded.flatten (List.length_eq_zero_iff.1 hlength.symm)
  · obtain ⟨piece, hpiece, hlabel⟩ := exists_of_mem_mapM hlabels label hlabel
    refine isLabel_of_label? (fun c hc => ?_) hlabel
    obtain ⟨hmem, hdot⟩ := Text.mem_of_mem_splitOn hpiece hc
    exact ⟨hdot, hchars c hmem⟩

theorem forall_mem_joinLabels {labels : List (List Char)} (h : ∀ label ∈ labels, IsLabel label) :
    ∀ c ∈ joinLabels labels, c.toNat < 0x80 ∧ IsFolded c := by
  intro c hc
  rcases Text.mem_intercalate hc with hdot | ⟨label, hlabel, hc⟩
  · obtain rfl := List.mem_singleton.1 hdot
    exact ⟨by decide, rfl⟩
  · obtain ⟨hascii, -, hfolded⟩ := (h label hlabel).ascii c hc
    exact ⟨hascii, hfolded⟩

/-- The name of labels in ASCII is its own name in ASCII. -/
theorem toAscii?_joinLabels {labels : List (List Char)} (hne : labels ≠ [])
    (h : ∀ label ∈ labels, IsLabel label) (hallowed : (joinLabels labels).any isForbidden = false) :
    toAscii? (joinLabels labels) = some (joinLabels labels) := by
  have hfolded : (joinLabels labels).mapM fold? = some ((joinLabels labels).map ([·])) :=
    mapM_eq_map fun c hc => (forall_mem_joinLabels h c hc).2
  have hpieces : Text.splitOn '.' (joinLabels labels) = labels := by
    rw [Text.splitOn_eq, joinLabels, List.splitOn_intercalate '.' _ hne]
    exact fun label hlabel hdot => ((h label hlabel).ascii '.' hdot).2.1 rfl
  have hlabels : labels.mapM label? = some (labels.map id) :=
    mapM_eq_map fun label hlabel => (h label hlabel).label?_eq
  have hflatten : ((joinLabels labels).map ([·])).flatten = joinLabels labels := by
    rw [← List.flatMap_def]
    exact List.flatMap_singleton' _
  simp only [toAscii?, hfolded, Option.bind_eq_bind, Option.bind_some, hflatten, hpieces, hlabels,
    List.map_id, hallowed]
  rfl

theorem toAscii?_eq_self {cs name : List Char} (h : toAscii? cs = some name) :
    toAscii? name = some name := by
  obtain ⟨hallowed, labels, hne, rfl, hlabels⟩ := exists_labels h
  exact toAscii?_joinLabels hne hlabels hallowed

/-- The characters of a name in ASCII. -/
theorem mem_toAscii? {cs name : List Char} (h : toAscii? cs = some name) {c : Char}
    (hc : c ∈ name) : c.toNat < 0x80 ∧ isForbidden c = false := by
  obtain ⟨hallowed, labels, -, rfl, hlabels⟩ := exists_labels h
  exact ⟨(forall_mem_joinLabels hlabels c hc).1, by simpa using List.any_eq_false.1 hallowed c hc⟩

end CameraFleet.Url.Domain
