import CameraFleet.Proofs.Network.Address
import CameraFleet.Proofs.Text.Percent
import CameraFleet.Proofs.Url.Domain
import CameraFleet.Url.Reader

/-!
# Hosts are read back

The host that a text is, is read from its own text again: behind a well-known scheme
(`special_text`) and behind any other (`plain_text`).
-/

namespace CameraFleet

namespace Network

/-- Four bytes. -/
structure Ipv4.IsProper (a : Ipv4) : Prop where
  length_eq : a.bytes.length = 4
  bounds : ∀ b ∈ a.bytes, b < 256

theorem Ipv4.IsProper.exists_bytes {a : Ipv4} (h : a.IsProper) : ∃ b c d e, a = ⟨[b, c, d, e]⟩ ∧
    b < 256 ∧ c < 256 ∧ d < 256 ∧ e < 256 := by
  obtain ⟨bytes⟩ := a
  obtain ⟨b, c, d, e, rfl⟩ : ∃ b c d e, bytes = [b, c, d, e] := List.length_eq_four.1 h.length_eq
  have hbounds := h.bounds
  simp only [List.forall_mem_cons] at hbounds
  exact ⟨b, c, d, e, rfl, hbounds.1, hbounds.2.1, hbounds.2.2.1, hbounds.2.2.2.1⟩

theorem joinWith_eq (sep : Char) : ∀ parts : List (List Char),
    joinWith sep parts = List.intercalate [sep] parts
  | [] => rfl
  | [part] => by rw [joinWith, List.intercalate_singleton]
  | part :: next :: parts => by
    rw [joinWith, joinWith_eq sep (next :: parts), List.intercalate_cons_cons, List.append_assoc,
      List.singleton_append]
    simp

end Network

namespace Url.Host

/-! ## Addresses of version 4 -/

theorem number?_digits (n : Nat) : number? (Natural.digits n) = some n := by
  have hbase : numberBase (Natural.digits n) = (10, Natural.digits n) := by
    rcases Nat.eq_zero_or_pos n with rfl | hpos
    · rfl
    · have hhead := Natural.head?_digits_ne_zero hpos
      rw [numberBase]
      intro x rest heq
      rw [heq] at hhead
      exact hhead rfl
  have hvalue : ∀ c ∈ Natural.digits n, Text.hexDigit? c = some (c.toNat - '0'.toNat) ∧
      c.toNat - '0'.toNat < 10 := by
    intro c hc
    have hdigit := Natural.isDigit_of_mem_digits hc
    exact ⟨if_pos hdigit, Natural.of_isDigit hdigit (by decide)⟩
  have hfold : ∀ cs : List Char, (∀ c ∈ cs, Text.hexDigit? c = some (c.toNat - '0'.toNat)) →
      ∀ m, cs.foldl (fun n c => n * 10 + (Text.hexDigit? c).getD 0) m =
        Nat.ofDigitChars 10 cs m := by
    intro cs hcs
    induction cs with
    | nil => exact fun m => rfl
    | cons c cs ih =>
      obtain ⟨hc, hcs⟩ := List.forall_mem_cons.1 hcs
      intro m
      rw [List.foldl_cons, hc, ih hcs, Nat.ofDigitChars_cons, Nat.mul_comm]
      rfl
  have hall : (Natural.digits n).all (fun c => (Text.hexDigit? c).any (· < 10)) = true := by
    refine List.all_eq_true.2 fun c hc => ?_
    obtain ⟨hdigit, hlt⟩ := hvalue c hc
    rw [hdigit]
    exact decide_eq_true hlt
  simp only [number?, hbase, hall, hfold _ (fun c hc => (hvalue c hc).1),
    Natural.ofDigitChars_digits]
  exact if_pos ⟨Natural.digits_ne_nil n, trivial⟩

theorem isProper_of_ipv4? {cs : List Char} {a : Network.Ipv4} (h : ipv4? cs = some a) :
    a.IsProper := by
  simp only [ipv4?, Option.bind_eq_bind, Option.bind_eq_some_iff] at h
  obtain ⟨numbers, -, last, hlast, h⟩ := h
  split_ifs at h with hnumbers
  obtain rfl := Option.some.inj h
  obtain ⟨hlength, hfirst, -⟩ := hnumbers
  have hne : numbers ≠ [] := by
    rintro rfl
    simp at hlast
  have hpos := List.length_pos_iff.2 hne
  constructor
  · simp only [bytesOf, List.length_append, List.length_drop, List.length_dropLast,
      List.length_cons, List.length_nil]
    omega
  · simp only [List.forall_mem_append]
    refine ⟨fun b hb => by simpa using List.all_eq_true.1 hfirst b hb, fun b hb => ?_⟩
    have hmem := List.mem_of_mem_drop hb
    simp only [bytesOf, List.mem_cons, List.not_mem_nil, or_false] at hmem
    omega

theorem isLabel_digits (n : Nat) : Domain.IsLabel (Natural.digits n) := by
  have hchars : ∀ c ∈ Natural.digits n, c.toNat < 0x80 ∧ c ≠ '.' ∧ Domain.IsFolded c := fun c hc =>
    Natural.of_isDigit (Natural.isDigit_of_mem_digits hc) (by decide +kernel)
  refine ⟨hchars, ?_⟩
  rw [Domain.label?_of_forall fun c hc => (hchars c hc).1, if_neg]
  rintro ⟨hbegins, -⟩
  obtain ⟨rest, hrest⟩ := List.isPrefixOf_iff_prefix.1 hbegins
  have hx : 'x' ∈ Natural.digits n := hrest ▸ List.mem_cons_self
  exact absurd (Natural.isDigit_of_mem_digits hx) (by decide)

/-- A name in ASCII is read as what it is. -/
theorem named_of_toAscii? {name : List Char} (h : Domain.toAscii? name = some name)
    (hne : name ≠ []) : named name =
      if endsInNumber name then
        match ipv4? name with
        | some address => .ok (.ipv4 address)
        | none => .error .invalidIpv4
      else .ok (.domain (String.ofList name)) := by
  have hpercent : '%' ∉ name := fun hc => by
    have := (Domain.mem_toAscii? h hc).2
    contradiction
  obtain ⟨c, cs, rfl⟩ := List.exists_cons_of_ne_nil hne
  rcases hipv4 : ipv4? (c :: cs) with _ | address <;>
    simp only [named, Text.decodeLossy_percentDecode hpercent, String.toList_ofList, h, hipv4]

theorem parts_text {b c d e : Nat} : parts (Network.Ipv4.text ⟨[b, c, d, e]⟩) =
    [b, c, d, e].map Natural.digits := by
  have hpieces : Text.splitOn '.' (Network.Ipv4.text ⟨[b, c, d, e]⟩) =
      [b, c, d, e].map Natural.digits := by
    rw [Text.splitOn_eq, Network.Ipv4.text, Network.joinWith_eq,
      List.splitOn_intercalate '.' _ (by simp)]
    simp only [List.forall_mem_map]
    exact fun n _ hdot => ((isLabel_digits n).ascii '.' hdot).2.1 rfl
  have hlast : ¬([b, c, d, e].map Natural.digits).getLast? = some [] := by
    simpa using Natural.digits_ne_nil e
  simp only [parts, hpieces]
  rw [if_neg hlast]

theorem toAscii?_text {a : Network.Ipv4} (h : a.IsProper) :
    Domain.toAscii? a.text = some a.text ∧ a.text ≠ [] := by
  obtain ⟨b, c, d, e, rfl, -⟩ := h.exists_bytes
  have htext : Network.Ipv4.text ⟨[b, c, d, e]⟩ =
      Domain.joinLabels ([b, c, d, e].map Natural.digits) := Network.joinWith_eq '.' _
  have hlabels : ∀ label ∈ [b, c, d, e].map Natural.digits, Domain.IsLabel label := by
    simp only [List.forall_mem_map]
    exact fun n _ => isLabel_digits n
  have hallowed : (Domain.joinLabels ([b, c, d, e].map Natural.digits)).any Domain.isForbidden =
      false := by
    refine List.any_eq_false.2 fun x hx => ?_
    rcases Text.mem_intercalate hx with hdot | ⟨label, hlabel, hx⟩
    · rw [List.mem_singleton.1 hdot]
      decide
    · obtain ⟨n, -, rfl⟩ := List.mem_map.1 hlabel
      exact Natural.of_isDigit (Natural.isDigit_of_mem_digits hx) (by decide)
  refine ⟨?_, by simp [Network.Ipv4.text, Network.joinWith]⟩
  rw [htext]
  exact Domain.toAscii?_joinLabels (by simp) hlabels hallowed

/-- An address of version 4 is read back from its text. -/
theorem named_text {a : Network.Ipv4} (h : a.IsProper) : named a.text = .ok (.ipv4 a) := by
  obtain ⟨hascii, hne⟩ := toAscii?_text h
  obtain ⟨b, c, d, e, rfl, hb, hc, hd, he⟩ := h.exists_bytes
  have hends : endsInNumber (Network.Ipv4.text ⟨[b, c, d, e]⟩) = true := by
    have hdigits : (Natural.digits e).all Char.isDigit = true :=
      List.all_eq_true.2 fun _ => Natural.isDigit_of_mem_digits
    have hnonempty : (Natural.digits e).isEmpty = false := by
      simpa using Natural.digits_ne_nil e
    simp [endsInNumber, parts_text, hdigits, hnonempty]
  have hread : ipv4? (Network.Ipv4.text ⟨[b, c, d, e]⟩) = some ⟨[b, c, d, e]⟩ := by
    simp [ipv4?, parts_text, number?_digits, bytesOf, hb, hc, hd, he]
  rw [named_of_toAscii? hascii hne, if_pos hends, hread]

/-! ## Addresses of version 6 -/

theorem bracketed_eq_ok {cs : List Char} {h : Host} (hread : bracketed cs = .ok h) :
    ∃ a : Network.Ipv6, h = .ipv6 a ∧ a.IsProper := by
  simp only [bracketed] at hread
  split_ifs at hread
  split at hread
  · rename_i a hread'
    exact ⟨a, (Except.ok.inj hread).symm, Network.isProper_of_ipv6? hread'⟩
  · contradiction

theorem bracketed_compressed {a : Network.Ipv6} (h : a.IsProper) :
    bracketed (a.compressed ++ [']']) = .ok (.ipv6 a) := by
  rw [bracketed, List.getLast?_concat, if_pos rfl, List.dropLast_concat,
    Network.ipv6?_compressed h]

theorem toList_text_ipv6 (a : Network.Ipv6) :
    (Host.ipv6 a).text.toList = '[' :: (a.compressed ++ [']']) := by
  simp [Host.text]

/-! ## Hosts behind a well-known scheme -/

/-- What the host of a URL with a well-known scheme can be. -/
inductive IsSpecial : Host → Prop
  | ipv6 {a : Network.Ipv6} (h : a.IsProper) : IsSpecial (.ipv6 a)
  | ipv4 {a : Network.Ipv4} (h : a.IsProper) : IsSpecial (.ipv4 a)
  | domain {name : List Char} (hne : name ≠ []) (hascii : Domain.toAscii? name = some name)
      (hends : endsInNumber name = false) : IsSpecial (.domain (String.ofList name))

theorem isSpecial_of_special {cs : List Char} {h : Host} (hread : special cs = .ok h) :
    IsSpecial h := by
  rw [special.eq_def] at hread
  split at hread
  · contradiction
  · obtain ⟨a, rfl, ha⟩ := bracketed_eq_ok hread
    exact .ipv6 ha
  · unfold named at hread
    dsimp only at hread
    split at hread
    · contradiction
    · contradiction
    · rename_i name hempty hname
      split_ifs at hread with hends
      · split at hread
        · rename_i a ha
          obtain rfl := Except.ok.inj hread
          exact .ipv4 (isProper_of_ipv4? ha)
        · contradiction
      · obtain rfl := Except.ok.inj hread
        exact .domain hempty (Domain.toAscii?_eq_self hname) (by simpa using hends)

theorem special_of_toAscii? {name : List Char} (h : Domain.toAscii? name = some name)
    (hne : name ≠ []) : special name = named name := by
  rw [special.eq_def]
  split
  · contradiction
  · have := (Domain.mem_toAscii? h List.mem_cons_self).2
    contradiction
  · rfl

/-- A host is read back from its text. -/
theorem IsSpecial.special_text {h : Host} (hspecial : IsSpecial h) :
    special h.text.toList = .ok h := by
  cases hspecial with
  | ipv6 ha => rw [toList_text_ipv6, special, bracketed_compressed ha]
  | ipv4 ha =>
    obtain ⟨hascii, hne⟩ := toAscii?_text ha
    rw [Host.text, String.toList_ofList, special_of_toAscii? hascii hne, named_text ha]
  | domain hne hascii hends =>
    rw [Host.text, String.toList_ofList, special_of_toAscii? hascii hne,
      named_of_toAscii? hascii hne, if_neg (by simpa using hends)]

/-! ## Hosts behind another scheme -/

/-- What the host of a URL with any other scheme can be. -/
inductive IsPlain : Host → Prop
  | ipv6 {a : Network.Ipv6} (h : a.IsProper) : IsPlain (.ipv6 a)
  | domain {name : List Char} (h : ∀ c ∈ name, isVisible c = true ∧ isForbidden c = false) :
      IsPlain (.domain (String.ofList name))

theorem keepsEscapes_isVisible : Text.KeepsEscapes isVisible := by decide

theorem isPlain_of_plain {cs : List Char} {h : Host} (hread : plain cs = .ok h) : IsPlain h := by
  rw [plain.eq_def] at hread
  split at hread
  · obtain ⟨a, rfl, ha⟩ := bracketed_eq_ok hread
    exact .ipv6 ha
  · split_ifs at hread with hforbidden
    obtain rfl := Except.ok.inj hread
    refine .domain fun c hc => ⟨keepsEscapes_isVisible.keep_of_mem hc, ?_⟩
    rcases Text.mem_percentEncode hc with ⟨-, hc⟩ | rfl | ⟨d, hd, rfl⟩
    · simpa using List.any_eq_false.1 (by simpa using hforbidden) c hc
    · rfl
    · have hall : ∀ d < 16, isForbidden (Text.hexDigitUpper d) = false := by decide
      exact hall d hd

theorem IsPlain.plain_text {h : Host} (hplain : IsPlain h) : plain h.text.toList = .ok h := by
  cases hplain with
  | ipv6 ha => rw [toList_text_ipv6, plain, bracketed_compressed ha]
  | domain hname =>
    rename_i name
    rw [Host.text, String.toList_ofList, plain.eq_def]
    split
    · exact absurd (hname '[' List.mem_cons_self).2 (by decide)
    · rw [if_neg (by simpa using fun c hc => (hname c hc).2),
        Text.percentEncode_eq_self fun c hc => (hname c hc).1]

end Url.Host

end CameraFleet
