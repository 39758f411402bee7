import Mathlib.Algebra.Group.Nat.Defs
import Mathlib.Data.List.Induction
import Mathlib.Data.List.TakeWhile
import CameraFleet.Network.Address
import CameraFleet.Proofs.Number.Decimal

/-!
# Addresses of version 6 are read back

An address of version 6 that has been read is eight groups of sixteen bits (`isProper_of_ipv6?`),
and from its text, in which the longest run of zeros is left out, it is read again
(`ipv6?_compressed`).
-/

namespace CameraFleet.Network

/-! ## Groups -/

theorem hexDigit?_digitChar : ∀ d < 16, Text.hexDigit? d.digitChar = some d := by decide

/-- A character of a number in hexadecimal. -/
def IsHexText (c : Char) : Prop := ∃ d < 16, c = Nat.digitChar d

theorem IsHexText.isHexDigit {c : Char} (h : IsHexText c) : Text.isHexDigit c = true := by
  obtain ⟨d, hd, rfl⟩ := h
  rw [Text.isHexDigit, hexDigit?_digitChar d hd, Option.isSome_some]

theorem isHexText_of_mem {n : Nat} {c : Char} (h : c ∈ hexText n) : IsHexText c := by
  induction n using Nat.strong_induction_on with
  | _ n ih =>
    rw [hexText, Nat.toDigits_eq_if (by decide)] at h
    split_ifs at h with hlt
    · exact ⟨n, hlt, List.mem_singleton.1 h⟩
    · rcases List.mem_append.1 h with h | h
      · exact ih (n / 16) (by omega) h
      · exact ⟨n % 16, Nat.mod_lt n (by decide), List.mem_singleton.1 h⟩

theorem ofHexDigits_append (cs : List Char) (c : Char) :
    Text.ofHexDigits (cs ++ [c]) = Text.ofHexDigits cs * 16 + (Text.hexDigit? c).getD 0 := by
  rw [Text.ofHexDigits, List.foldl_append]
  rfl

theorem ofHexDigits_hexText (n : Nat) : Text.ofHexDigits (hexText n) = n := by
  induction n using Nat.strong_induction_on with
  | _ n ih =>
    rw [hexText, Nat.toDigits_eq_if (by decide)]
    split_ifs with hlt
    · rw [← List.nil_append [_], ofHexDigits_append, hexDigit?_digitChar n hlt]
      exact Nat.zero_add n
    · rw [ofHexDigits_append, hexDigit?_digitChar _ (Nat.mod_lt n (by decide)), ← hexText,
        ih (n / 16) (by omega)]
      exact Nat.div_add_mod' n 16

theorem hexDigit?_lt {c : Char} : (Text.hexDigit? c).getD 0 < 16 := by
  have hbounds : ∀ {low high : Char}, low ≤ c ∧ c ≤ high →
      low.toNat ≤ c.toNat ∧ c.toNat ≤ high.toNat := fun h =>
    ⟨UInt32.le_iff_toNat_le.1 h.1, UInt32.le_iff_toNat_le.1 h.2⟩
  unfold Text.hexDigit?
  split_ifs with hdigit hsmall hcapital
  · have hten : c.toNat - '0'.toNat < 10 := Natural.of_isDigit hdigit (by decide)
    exact hten.trans (by decide)
  · have := hbounds hsmall
    simp only [Option.getD_some, Char.reduceToNat] at this ⊢
    omega
  · have := hbounds hcapital
    simp only [Option.getD_some, Char.reduceToNat] at this ⊢
    omega
  · decide

theorem ofHexDigits_lt (cs : List Char) : Text.ofHexDigits cs < 16 ^ cs.length := by
  induction cs using List.reverseRecOn with
  | nil => decide
  | append_singleton cs c ih =>
    have := hexDigit?_lt (c := c)
    rw [ofHexDigits_append, List.length_append, List.length_singleton, Nat.pow_succ]
    omega

/-- A group is followed by no digit. -/
def EndsGroup (cs : List Char) : Prop :=
  ∀ c, cs.head? = some c → Text.isHexDigit c = false

theorem group?_hexText {g : Nat} (hg : g < 0x10000) {rest : List Char} (h : EndsGroup rest) :
    group? (hexText g ++ rest) = some (g, rest) := by
  have hdigits : ∀ c ∈ hexText g, Text.isHexDigit c = true := fun c hc =>
    (isHexText_of_mem hc).isHexDigit
  have hstop : rest.takeWhile Text.isHexDigit = [] ∧ rest.dropWhile Text.isHexDigit = rest := by
    rcases rest with _ | ⟨c, rest⟩
    · exact ⟨rfl, rfl⟩
    · have hc : ¬Text.isHexDigit c = true := by simp [h c rfl]
      exact ⟨List.takeWhile_cons_of_neg hc, List.dropWhile_cons_of_neg hc⟩
  have hlength : (hexText g).length ≤ 4 :=
    (Nat.length_toDigits_le_iff (by decide) (by decide)).2 hg
  unfold group?
  simp only [List.takeWhile_append_of_pos hdigits, List.dropWhile_append_of_pos hdigits, hstop,
    List.append_nil, ofHexDigits_hexText]
  rw [if_pos ⟨Nat.toDigits_ne_nil, hlength⟩]

theorem lt_of_group? {cs rest : List Char} {g : Nat} (h : group? cs = some (g, rest)) :
    g < 0x10000 := by
  simp only [group?] at h
  split_ifs at h with hdigits
  obtain ⟨rfl, -⟩ := Prod.mk.inj (Option.some.inj h)
  calc Text.ofHexDigits (cs.takeWhile Text.isHexDigit)
      < 16 ^ (cs.takeWhile Text.isHexDigit).length := ofHexDigits_lt _
    _ ≤ 16 ^ 4 := Nat.pow_le_pow_right (by decide) hdigits.2

/-! ## Addresses of version 4 inside -/

theorem byte?_eq_some {cs rest : List Char} {n : Nat} (h : byte? cs = some (n, rest)) :
    n < 256 ∧ rest = cs.dropWhile Char.isDigit := by
  simp only [byte?] at h
  split_ifs at h with hdigits hlt
  obtain ⟨rfl, rfl⟩ := Prod.mk.inj (Option.some.inj h)
  exact ⟨hlt, rfl⟩

theorem ipv4?_eq_some {cs rest : List Char} {address : Ipv4}
    (h : ipv4? cs = some (address, rest)) : ∃ a b c d, address.bytes = [a, b, c, d] ∧
      a < 256 ∧ b < 256 ∧ c < 256 ∧ d < 256 := by
  simp only [ipv4?, Option.bind_eq_bind, Option.bind_eq_some_iff, Prod.exists] at h
  obtain ⟨a, _, ha, _, -, b, _, hb, _, -, c, _, hc, _, -, d, _, hd, h⟩ := h
  obtain ⟨rfl, -⟩ := Prod.mk.inj (Option.some.inj h)
  exact ⟨a, b, c, d, rfl, (byte?_eq_some ha).1, (byte?_eq_some hb).1, (byte?_eq_some hc).1,
    (byte?_eq_some hd).1⟩

theorem ipv4?_of_not_mem {cs : List Char} (h : '.' ∉ cs) : ipv4? cs = none := by
  rw [Option.eq_none_iff_forall_ne_some]
  rintro ⟨address, rest⟩ hread
  simp only [ipv4?, Option.bind_eq_bind, Option.bind_eq_some_iff, Prod.exists] at hread
  obtain ⟨a, behind, ha, after, hafter, -⟩ := hread
  rw [(byte?_eq_some ha).2] at hafter
  rcases hbehind : cs.dropWhile Char.isDigit with _ | ⟨c, behind⟩
  · simp [hbehind, after?] at hafter
  · have hc : c ∈ cs := (List.dropWhile_sublist _).subset (hbehind ▸ List.mem_cons_self)
    have hne : '.' ≠ c := fun heq => h (heq.symm ▸ hc)
    rw [hbehind, after?, if_neg hne] at hafter
    contradiction

/-! ## Sequences of groups -/

/-- The groups that are read are those so far and at most `count` more, of sixteen bits each. -/
theorem groups_bounds (count : Nat) {found : List Nat} (cs : List Char)
    (h : ∀ g ∈ found, g < 0x10000) :
    (groups count found cs).1.length ≤ found.length + count ∧
      ∀ g ∈ (groups count found cs).1, g < 0x10000 := by
  induction count generalizing found cs with
  | zero => exact ⟨le_rfl, h⟩
  | succ count ih =>
    rw [groups]
    split
    · exact ⟨by simp only; omega, h⟩
    · rename_i rest _
      split
      · rename_i a b c d rest' hread
        split_ifs at hread with hcount
        obtain ⟨_, _, _, _, hbytes, ha, hb, hc, hd⟩ := ipv4?_eq_some hread
        simp only [List.cons.injEq, and_true] at hbytes
        obtain ⟨rfl, rfl, rfl, rfl⟩ := hbytes
        refine ⟨by simp; omega, ?_⟩
        simp only [List.forall_mem_append, List.forall_mem_cons]
        exact ⟨h, by omega, by omega, by simp⟩
      · split
        · rename_i g rest' hgroup
          have hfound : ∀ other ∈ found ++ [g], other < 0x10000 := by
            simp only [List.forall_mem_append, List.forall_mem_singleton]
            exact ⟨h, lt_of_group? hgroup⟩
          obtain ⟨hlength, hbounds⟩ := ih rest' hfound
          refine ⟨?_, hbounds⟩
          rw [List.length_append, List.length_singleton] at hlength
          omega
        · exact ⟨by simp only; omega, h⟩

/-- Groups behind the first one, each with its colon. -/
def laterText (gs : List Nat) : List Char :=
  gs.flatMap fun g => ':' :: hexText g

theorem joinWith_hexText (g : Nat) (gs : List Nat) :
    joinWith ':' ((g :: gs).map hexText) = hexText g ++ laterText gs := by
  induction gs generalizing g with
  | nil => simp [joinWith, laterText]
  | cons next gs ih =>
    have hlater : laterText (next :: gs) = ':' :: (hexText next ++ laterText gs) := rfl
    rw [hlater, ← ih next]
    rfl

/-- A character of groups with colons between them. -/
def IsGroupsText (c : Char) : Prop := c = ':' ∨ IsHexText c

theorem isGroupsText_of_mem_laterText {gs : List Nat} {c : Char} (h : c ∈ laterText gs) :
    IsGroupsText c := by
  obtain ⟨g, -, h⟩ := List.mem_flatMap.1 h
  exact (List.mem_cons.1 h).imp_right isHexText_of_mem

theorem isGroupsText_of_mem_joinWith {gs : List Nat} {c : Char}
    (h : c ∈ joinWith ':' (gs.map hexText)) : IsGroupsText c := by
  rcases gs with _ | ⟨g, gs⟩
  · exact absurd h List.not_mem_nil
  · rw [joinWith_hexText] at h
    exact (List.mem_append.1 h).elim (.inr ∘ isHexText_of_mem) isGroupsText_of_mem_laterText

theorem not_isGroupsText_dot : ¬IsGroupsText '.' := by
  have hall : ∀ d < 16, '.' ≠ Nat.digitChar d := by decide
  rintro (h | ⟨d, hd, h⟩)
  · exact absurd h (by decide)
  · exact hall d hd h

theorem dot_not_mem {g : Nat} {gs : List Nat} {rest : List Char} (h : '.' ∉ rest) :
    '.' ∉ hexText g ++ (laterText gs ++ rest) := by
  rw [List.mem_append, List.mem_append]
  rintro (hdot | hdot | hdot)
  · exact not_isGroupsText_dot (.inr (isHexText_of_mem hdot))
  · exact not_isGroupsText_dot (isGroupsText_of_mem_laterText hdot)
  · exact h hdot

theorem endsGroup_laterText {gs : List Nat} {rest : List Char} (h : EndsGroup rest) :
    EndsGroup (laterText gs ++ rest) := by
  rcases gs with _ | ⟨g, gs⟩
  · exact h
  · intro c hc
    obtain rfl : ':' = c := Option.some.inj hc
    decide

/-- One more group is read. -/
theorem groups_succ {count g : Nat} {found : List Nat} {cs rest : List Char} (hg : g < 0x10000)
    (hnext : (if found.isEmpty then some cs else after? ':' cs) = some (hexText g ++ rest))
    (hdot : '.' ∉ hexText g ++ rest) (hrest : EndsGroup rest) :
    groups (count + 1) found cs = groups count (found ++ [g]) rest := by
  rw [groups, hnext]
  simp only [ipv4?_of_not_mem hdot, ite_self, group?_hexText hg hrest]

theorem groups_laterText {rest : List Char} (hdot : '.' ∉ rest) (hrest : EndsGroup rest) :
    ∀ {gs found : List Nat} {count : Nat}, found ≠ [] → (∀ g ∈ gs, g < 0x10000) →
      groups (count + gs.length) found (laterText gs ++ rest) = groups count (found ++ gs) rest
  | [], found, count, _, _ => by simp [laterText]
  | g :: gs, found, count, hne, h => by
    obtain ⟨hg, hgs⟩ := List.forall_mem_cons.1 h
    have hnext : (if found.isEmpty then some (laterText (g :: gs) ++ rest)
        else after? ':' (laterText (g :: gs) ++ rest)) =
          some (hexText g ++ (laterText gs ++ rest)) := by
      rw [if_neg (by simpa using hne), laterText, List.flatMap_cons, List.cons_append,
        List.cons_append, after?, if_pos rfl, List.append_assoc]
      rfl
    rw [List.length_cons, ← Nat.add_assoc, groups_succ hg hnext (dot_not_mem hdot)
      (endsGroup_laterText hrest), groups_laterText hdot hrest (by simp) hgs, List.append_assoc,
      List.singleton_append]

/-- What ends a sequence of groups: nothing, or the gap. -/
def EndsGroups (rest : List Char) : Prop :=
  '.' ∉ rest ∧ (rest = [] ∨ ∃ behind, rest = ':' :: ':' :: behind)

theorem EndsGroups.groups_eq {rest : List Char} (h : EndsGroups rest) (count : Nat)
    (found : List Nat) : groups count found rest = (found, false, rest) := by
  obtain ⟨hdot, hrest⟩ := h
  have hgroup : ∀ cs, group? (':' :: cs) = none := fun cs => rfl
  cases count with
  | zero => rfl
  | succ count =>
    rw [groups]
    rcases hrest with rfl | ⟨behind, rfl⟩
    · cases found <;> simp [after?, ipv4?_of_not_mem, group?]
    · have hbehind : '.' ∉ ':' :: behind := fun h => hdot (List.mem_cons_of_mem _ h)
      cases found <;>
        simp [after?, ipv4?_of_not_mem hdot, ipv4?_of_not_mem hbehind, hgroup]

theorem EndsGroups.endsGroup {rest : List Char} (h : EndsGroups rest) : EndsGroup rest := by
  rcases h.2 with rfl | ⟨behind, rfl⟩
  · intro c hc
    contradiction
  · intro c hc
    obtain rfl : ':' = c := Option.some.inj hc
    decide

/-- The groups of a text are read up to its end or the gap. -/
theorem groups_joinWith {rest : List Char} (hrest : EndsGroups rest) {gs : List Nat}
    (h : ∀ g ∈ gs, g < 0x10000) (count : Nat) :
    groups (count + gs.length) [] (joinWith ':' (gs.map hexText) ++ rest) = (gs, false, rest) := by
  rcases gs with _ | ⟨g, gs⟩
  · exact hrest.groups_eq _ _
  · obtain ⟨hg, hgs⟩ := List.forall_mem_cons.1 h
    rw [joinWith_hexText, List.append_assoc, List.length_cons, ← Nat.add_assoc,
      groups_succ hg rfl (dot_not_mem hrest.1) (endsGroup_laterText hrest.endsGroup),
      List.nil_append, groups_laterText hrest.1 hrest.endsGroup (List.cons_ne_nil _ _) hgs,
      List.singleton_append, hrest.groups_eq]

/-! ## The gap -/

theorem zeroRun_split (gs : List Nat) :
    gs = List.replicate (zeroRun gs) 0 ++ gs.dropWhile (· = 0) := by
  have hzeros : gs.takeWhile (· = 0) = List.replicate (zeroRun gs) 0 :=
    List.eq_replicate_of_mem fun g hg => by simpa using List.mem_takeWhile_imp hg
  rw [← hzeros, List.takeWhile_append_dropWhile]

/-- The longest run of zeros is where it is said to be. -/
theorem longestZeros_split : ∀ (place : Nat) (gs : List Nat), 0 < (longestZeros place gs).2 →
    ∃ front behind, gs = front ++ List.replicate (longestZeros place gs).2 0 ++ behind ∧
      place + front.length = (longestZeros place gs).1
  | _, [], h => absurd h (lt_irrefl 0)
  | place, g :: gs, h => by
    simp only [longestZeros] at h ⊢
    split_ifs at h ⊢ with hle
    · exact ⟨[], _, zeroRun_split (g :: gs), rfl⟩
    · obtain ⟨front, behind, hgs, hplace⟩ := longestZeros_split (place + 1) gs h
      refine ⟨g :: front, behind, ?_, ?_⟩
      · rw [List.cons_append, List.cons_append, ← hgs]
      · rw [List.length_cons, ← hplace]
        omega

/-! ## Whole addresses -/

/-- Eight groups of sixteen bits. -/
structure Ipv6.IsProper (a : Ipv6) : Prop where
  length_eq : a.groups.length = 8
  bounds : ∀ g ∈ a.groups, g < 0x10000

theorem isProper_of_ipv6? {cs rest : List Char} {a : Ipv6} (h : ipv6? cs = some (a, rest)) :
    a.IsProper := by
  obtain ⟨hlength, hbounds⟩ := groups_bounds 8 cs (List.forall_mem_nil _)
  unfold ipv6? at h
  generalize groups 8 [] cs = read at h hlength hbounds
  obtain ⟨head, hasIpv4, behind⟩ := read
  simp only [List.length_nil, Nat.zero_add] at h hlength hbounds
  split_ifs at h with height
  · obtain ⟨rfl, -⟩ := Prod.mk.inj (Option.some.inj h)
    exact ⟨height, hbounds⟩
  · split at h
    · rename_i behind'
      obtain ⟨htail, htailBounds⟩ :=
        groups_bounds (7 - head.length) behind' (List.forall_mem_nil _)
      obtain ⟨rfl, -⟩ := Prod.mk.inj (Option.some.inj h)
      rw [List.length_nil, Nat.zero_add] at htail
      refine ⟨?_, ?_⟩
      · simp only [List.length_append, List.length_replicate]
        omega
      · simp only [List.forall_mem_append]
        exact ⟨⟨hbounds, fun g hg => (List.eq_of_mem_replicate hg).symm ▸ by decide⟩, htailBounds⟩
    · contradiction

/-- An address is read back from its text. -/
theorem ipv6?_compressed {a : Ipv6} (h : a.IsProper) : ipv6? a.compressed = some (a, []) := by
  obtain ⟨gs⟩ := a
  obtain ⟨height, hbounds⟩ := h
  simp only at height hbounds
  have hend : EndsGroups [] := ⟨List.not_mem_nil, .inl rfl⟩
  rw [Ipv6.compressed]
  generalize hlongest : longestZeros 0 gs = longest
  obtain ⟨place, length⟩ := longest
  simp only
  split_ifs with hshort
  · have hread := groups_joinWith hend hbounds 0
    rw [height, Nat.zero_add, List.append_nil] at hread
    rw [ipv6?, hread]
    simp only [height, if_true]
  · obtain ⟨front, behind, hgs, hplace⟩ := longestZeros_split 0 gs (by rw [hlongest]; omega)
    rw [hlongest] at hgs hplace
    simp only [Nat.zero_add] at hgs hplace
    have hsum : front.length + length + behind.length = 8 := by
      rw [← height, hgs]
      simp only [List.length_append, List.length_replicate]
    have htake : gs.take place = front := by
      rw [hgs, List.append_assoc, ← hplace, List.take_left']
      rfl
    have hdrop : gs.drop (place + length) = behind := by
      rw [hgs, List.drop_left']
      simp only [List.length_append, List.length_replicate, hplace]
    rw [hgs, List.forall_mem_append, List.forall_mem_append] at hbounds
    obtain ⟨⟨hfront, -⟩, hbehind⟩ := hbounds
    rw [htake, hdrop]
    have hdots : '.' ∉ ':' :: ':' :: joinWith ':' (behind.map hexText) := by
      simp only [List.mem_cons, Char.reduceEq, false_or]
      exact fun hdot => not_isGroupsText_dot (isGroupsText_of_mem_joinWith hdot)
    have hhead := groups_joinWith ⟨hdots, .inr ⟨_, rfl⟩⟩ hfront (8 - front.length)
    have htail := groups_joinWith hend hbehind (7 - front.length - behind.length)
    rw [List.append_nil, Nat.sub_add_cancel (by omega)] at htail
    rw [Nat.sub_add_cancel (by omega)] at hhead
    rw [ipv6?, hhead]
    simp only [htail]
    rw [if_neg (by omega), if_neg (by simp), hgs,
      show 8 - front.length - behind.length = length by omega]

theorem isGroupsText_of_mem_compressed {a : Ipv6} {c : Char} (h : c ∈ a.compressed) :
    IsGroupsText c := by
  simp only [Ipv6.compressed] at h
  split_ifs at h
  · exact isGroupsText_of_mem_joinWith h
  · simp only [List.mem_append, List.mem_cons] at h
    rcases h with h | rfl | rfl | h
    · exact isGroupsText_of_mem_joinWith h
    · exact .inl rfl
    · exact .inl rfl
    · exact isGroupsText_of_mem_joinWith h

end CameraFleet.Network
