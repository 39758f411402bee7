import Mathlib.Data.List.TakeWhile
import CameraFleet.Http.Form
import CameraFleet.Http.Message
import CameraFleet.Proofs.Text.Split

/-!
# Reading forms back

Whatever a text is, its form is read back as it (`Form.decode_encode`), and has none of the
characters that divide the target of a request or a query. So a query of one name with a value is
read as this pair (`Form.pairs_single`), and stays together behind a path
(`Target.ofText_query`).
-/

namespace CameraFleet

namespace Text

variable {sep : Char} {cs : List Char}

theorem cutAt_append (h : sep ∉ cs) (rest : List Char) :
    cutAt sep (cs ++ sep :: rest) = (cs, some rest) := by
  have hcs : ∀ c ∈ cs, decide (c ≠ sep) = true := fun c hc => by
    rw [decide_eq_true_eq]
    rintro rfl
    exact h hc
  have hdrop : (cs ++ sep :: rest).dropWhile (· ≠ sep) = sep :: rest := by
    rw [List.dropWhile_append_of_pos hcs, List.dropWhile_cons_of_neg (by simp)]
  have htake : (cs ++ sep :: rest).takeWhile (· ≠ sep) = cs := by
    rw [List.takeWhile_append_of_pos hcs, List.takeWhile_cons_of_neg (by simp), List.append_nil]
  unfold cutAt
  rw [hdrop, htake]

theorem percentDecode_cons {c : Char} (hc : c ≠ '%') (cs : List Char) :
    percentDecode (c :: cs) = String.utf8EncodeChar c ++ percentDecode cs := by
  rw [percentDecode.eq_def]
  split
  · simp_all
  · simp_all
  · simp_all

theorem percentDecode_percentEscape (b : UInt8) (cs : List Char) :
    percentDecode (percentEscape b ++ cs) = b :: percentDecode cs := by
  have hb := b.toNat_lt
  have hhigh := hexDigit?_hexDigitUpper (b.toNat / 16) (by omega)
  have hlow := hexDigit?_hexDigitUpper (b.toNat % 16) (by omega)
  simp only [percentEscape, List.cons_append, List.nil_append, percentDecode, hhigh, hlow,
    Nat.div_add_mod', UInt8.ofNat_toNat]

theorem percentDecode_percentEscapes : ∀ (bs : List UInt8) (cs : List Char),
    percentDecode (bs.flatMap percentEscape ++ cs) = bs ++ percentDecode cs
  | [], _ => rfl
  | b :: bs, cs => by
    rw [List.flatMap_cons, List.append_assoc, percentDecode_percentEscape,
      percentDecode_percentEscapes bs, List.cons_append]

end Text

namespace Http.Form

/-- A character that a form leaves or puts there, and that divides nothing. -/
def IsInner (c : Char) : Prop := isPlain c ∨ c = '+' ∨ c = '%'

theorem IsInner.ne {c d : Char} (hc : IsInner c) (hd : isPlain d = false) (hplus : d ≠ '+')
    (hpercent : d ≠ '%') : c ≠ d := by
  rintro rfl
  rcases hc with hc | hc | hc
  · simp [hd] at hc
  · exact hplus hc
  · exact hpercent hc

theorem isPlain_hexDigitUpper : ∀ n < 16, isPlain (Text.hexDigitUpper n) = true := by
  decide

theorem isInner_percentEscape {b : UInt8} {c : Char} (hc : c ∈ Text.percentEscape b) :
    IsInner c := by
  have hb := b.toNat_lt
  simp only [Text.percentEscape, List.mem_cons, List.not_mem_nil, or_false] at hc
  rcases hc with rfl | rfl | rfl
  · exact Or.inr (Or.inr rfl)
  · exact Or.inl (isPlain_hexDigitUpper _ (by omega))
  · exact Or.inl (isPlain_hexDigitUpper _ (by omega))

theorem isInner_encode {s : String} {c : Char} (hc : c ∈ (encode s).toList) : IsInner c := by
  rw [encode, String.toList_ofList, List.mem_flatMap] at hc
  obtain ⟨d, -, hc⟩ := hc
  unfold encodeChar at hc
  split_ifs at hc with hplain
  · rw [List.mem_singleton.1 hc]
    exact Or.inl hplain
  · exact Or.inr (Or.inl (List.mem_singleton.1 hc))
  · obtain ⟨b, -, hc⟩ := List.mem_flatMap.1 hc
    exact isInner_percentEscape hc

/-- A character as it is read in a form, before the percent signs. -/
def unplus (c : Char) : Char := if c = '+' then ' ' else c

theorem unplus_percentEscape (b : UInt8) :
    (Text.percentEscape b).map unplus = Text.percentEscape b := by
  have hb := b.toNat_lt
  have hdigit : ∀ n < 16, unplus (Text.hexDigitUpper n) = Text.hexDigitUpper n := by decide
  simp only [Text.percentEscape, List.map_cons, List.map_nil, hdigit (b.toNat / 16) (by omega),
    hdigit (b.toNat % 16) (by omega), show unplus '%' = '%' from rfl]

theorem percentDecode_encodeChar (c : Char) (cs : List Char) :
    Text.percentDecode ((encodeChar c).map unplus ++ cs) =
      String.utf8EncodeChar c ++ Text.percentDecode cs := by
  unfold encodeChar
  split_ifs with hplain hspace
  · have hne : c ≠ '+' ∧ c ≠ '%' := by
      constructor <;> (rintro rfl; exact absurd hplain (by decide))
    simp [unplus, hne.1, Text.percentDecode_cons hne.2]
  · subst hspace
    exact Text.percentDecode_cons (by decide) cs
  · rw [Text.percentEscapeChar, List.map_flatMap]
    simp only [unplus_percentEscape]
    exact Text.percentDecode_percentEscapes _ _

theorem percentDecode_encodeChars : ∀ cs : List Char,
    Text.percentDecode ((cs.flatMap encodeChar).map unplus) = cs.flatMap String.utf8EncodeChar
  | [] => rfl
  | c :: cs => by
    rw [List.flatMap_cons, List.map_append, percentDecode_encodeChar,
      percentDecode_encodeChars cs, List.flatMap_cons]

/-- The form of a text is read back as the text. -/
theorem decode_encode (s : String) : decode (encode s).toList = s := by
  have hbytes : (⟨(s.toList.flatMap String.utf8EncodeChar).toArray⟩ : ByteArray) = s.toUTF8 := by
    rw [String.toUTF8_eq_toByteArray, ← String.utf8Encode_toList, List.utf8Encode]
    exact ByteArray.ext List.data_toByteArray.symm
  have hdecoded := percentDecode_encodeChars s.toList
  unfold decode encode
  rw [String.toList_ofList]
  change Utf8.decodeLossy ⟨(Text.percentDecode
    ((s.toList.flatMap encodeChar).map unplus)).toArray⟩ = s
  rw [hdecoded, hbytes, Utf8.decodeLossy_toUTF8]

/-- A name and a value as a query has them. -/
def pairText (name value : String) : String := encode name ++ "=" ++ encode value

theorem toList_pairText (name value : String) :
    (pairText name value).toList = (encode name).toList ++ '=' :: (encode value).toList := by
  simp [pairText]

theorem not_mem_pairText {name value : String} {d : Char} (hd : isPlain d = false)
    (hplus : d ≠ '+') (hpercent : d ≠ '%') (heq : d ≠ '=') :
    d ∉ (pairText name value).toList := by
  rw [toList_pairText]
  intro hmem
  rcases List.mem_append.1 hmem with hmem | hmem
  · exact (isInner_encode hmem).ne hd hplus hpercent rfl
  · rcases List.mem_cons.1 hmem with hmem | hmem
    · exact heq hmem
    · exact (isInner_encode hmem).ne hd hplus hpercent rfl

theorem pairs_single (name value : String) : pairs (pairText name value) = [(name, value)] := by
  have hand : '&' ∉ (pairText name value).toList :=
    not_mem_pairText (by decide) (by decide) (by decide) (by decide)
  have hequals : '=' ∉ (encode name).toList := fun h =>
    (isInner_encode h).ne (by decide) (by decide) (by decide) rfl
  unfold pairs
  rw [Text.splitOn_of_not_mem hand, toList_pairText, List.filter_cons_of_pos (by simp)]
  simp [pair, Text.cutAt_append hequals, decode_encode]

end Http.Form

namespace Http.Target

/-- A path and a query behind it, which both leave out what would end them. -/
theorem ofText_query {path query : String} {rest : List Char} (hpath : path.toList = '/' :: rest)
    (hends : '#' ∉ path.toList ∧ '?' ∉ path.toList) (hquery : '#' ∉ query.toList) :
    ofText (path ++ "?" ++ query) = ⟨path, some query⟩ := by
  have hchars : (path ++ "?" ++ query).toList = path.toList ++ '?' :: query.toList := by simp
  have hfragment : (path ++ "?" ++ query).toList.takeWhile (· ≠ '#') =
      path.toList ++ '?' :: query.toList := by
    rw [hchars, List.takeWhile_eq_self_iff]
    intro c hc
    rw [decide_eq_true_eq]
    rintro rfl
    rcases List.mem_append.1 hc with hc | hc
    · exact hends.1 hc
    · rcases List.mem_cons.1 hc with hc | hc
      · exact absurd hc (by decide)
      · exact hquery hc
  have hhead : (path.toList ++ '?' :: query.toList).head? = some '/' := by simp [hpath]
  unfold ofText
  simp only [hfragment, hhead, if_true, Option.getD_none, Text.cutAt_append hends.2]
  simp

end Http.Target

end CameraFleet
