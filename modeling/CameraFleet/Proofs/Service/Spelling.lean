import CameraFleet.Proofs.Json.Parts
import CameraFleet.Proofs.Json.Range
import CameraFleet.Proofs.Service.Verdict

/-!
# The spelling of a quality

A quality may be any number, and a request with any literal for it is read if the literal has a
value (`SetRequest.Surrounds.ofSymbols?_eq`). What the literal then comes to depends on how it is
spelled: a whole number of 32 bits makes a patch only where it is written plainly, without sign,
point and exponent (`SetRequest.patch_literal_iff`).
-/

namespace CameraFleet

open Json (Literal)

namespace Json.Literal

variable (n : Literal)

/-- The number is no whole number of 32 bits: it is negative, too large or fractional. -/
def IsUnstorable : Prop :=
  n.value < 0 ∨ 2 ^ 32 - 1 < n.value ∨ ∀ m : ℤ, n.value ≠ m

theorem isUnstorable_iff : n.IsUnstorable ↔ ∀ k : UInt32, n.value ≠ k.toNat := by
  constructor
  · intro h k hk
    have hlt : (k.toNat : ℚ) ≤ 2 ^ 32 - 1 := by
      have := k.toNat_lt
      rw [le_sub_iff_add_le]
      exact_mod_cast this
    rcases h with hneg | hlarge | hfraction
    · exact absurd hneg (by rw [hk]; exact not_lt.2 (Nat.cast_nonneg _))
    · exact absurd hlarge (by rw [hk]; exact not_lt.2 hlt)
    · exact hfraction k.toNat (by rw [hk]; norm_cast)
  · intro h
    by_contra hstorable
    simp only [IsUnstorable, not_or, not_lt, not_forall, not_not] at hstorable
    obtain ⟨hpos, hsmall, m, hm⟩ := hstorable
    rw [hm] at hpos hsmall
    have hpos : 0 ≤ m := by exact_mod_cast hpos
    have hsmall : m ≤ 2 ^ 32 - 1 := by exact_mod_cast hsmall
    have hlt : m.toNat < 2 ^ 32 := by omega
    refine h (UInt32.ofNat m.toNat) ?_
    rw [UInt32.toNat_ofNat_of_lt' hlt, hm]
    exact_mod_cast (Int.toNat_of_nonneg hpos).symm

/-- The quality that a literal is read as. -/
theorem ofDatum?_eq_whole_iff {k : UInt32} :
    WireQuality.ofDatum? n.datum = some (.whole k) ↔ n.IsPlain ∧ n.value = k.toNat := by
  rw [← uint32?_datum, WireQuality.ofDatum?]
  rcases n.datum.uint32? with _ | j <;> simp

theorem ofDatum?_isSome_iff : (WireQuality.ofDatum? n.datum).isSome ↔ n.HasDouble := by
  rw [hasDouble_iff, WireQuality.ofDatum?]
  rcases hword : n.datum.uint32? with _ | k
  · simp
  · have hnumber : n.datum.number?.isSome = true := by
      rcases hdatum : n.datum with _ | _ | m | _ <;>
        simp [hdatum, Datum.uint32?, Datum.word?] at hword
      rfl
    simp [hnumber]

end Json.Literal

namespace SetRequest

open Json (Awaits Ends)
open Utf8 (Symbol)

/-- What stands around a quality in a body. With a zero for the quality the body would be a
request for the camera, with the format. -/
structure Surrounds (before after : List Symbol) (index : Ident) (format : Option Ident) :
    Prop where
  awaits : (∃ fields, Awaits before [.table fields (some "jpeg_quality")]) ∨
    ∃ d d', Awaits before [.list [d', d]]
  ends : Ends after
  valid : (Json.ofSymbols? (before ++ some '0' :: after)).bind ofDatum? =
    some ⟨index, format, some (.whole 0)⟩

namespace Surrounds

variable {before after : List Symbol} {index : Ident} {format : Option Ident}

/-- Whatever literal is put there, the fields of the request are found, and only its quality
differs. -/
theorem exists_record (h : Surrounds before after index format) :
    ∃ front back : Datum.Record, front.lookup "jpeg_quality" = none ∧ ∀ n : Literal, ∃ d,
      Json.ofSymbols? (before ++ (n.text.map some ++ after)) = some d ∧
      d.record? fieldNames = some (front ++ ("jpeg_quality", n.datum) :: back) := by
  obtain ⟨d, hd, hrequest⟩ := Option.bind_eq_some_iff.1 h.valid
  have hzero : Json.ofSymbols? (before ++ (Literal.zero.text.map some ++ after)) = some d := hd
  have hrecord : (d.record? fieldNames).isSome := by
    rcases hfields : d.record? fieldNames with _ | fields
    · simp [ofDatum?, hfields] at hrequest
    · rfl
  obtain ⟨found, hfound⟩ := Option.isSome_iff_exists.1 hrecord
  rcases h.awaits with ⟨fields, hawaits⟩ | ⟨d₀, d₁, hawaits⟩
  · obtain ⟨more, hmore⟩ := hawaits.exists_fields h.ends hzero
    obtain rfl := Option.some.inj (hzero.symm.trans (hmore Literal.zero))
    obtain ⟨front, back, hfront, hall⟩ := Datum.known?_append_cons (by decide) hfound
    exact ⟨front, back, hfront, fun n => ⟨_, hmore n, hall n.datum⟩⟩
  · obtain ⟨more, hmore⟩ := hawaits.exists_items h.ends hzero
    obtain rfl := Option.some.inj (hzero.symm.trans (hmore Literal.zero))
    obtain rfl : more = [] := by
      by_contra hne
      have hpos := List.length_pos_iff.2 hne
      simp [Datum.record?, fieldNames] at hfound
      omega
    exact ⟨[("index", d₀), ("image_format", d₁)], [], rfl, fun n => ⟨_, hmore n, rfl⟩⟩

/-- A request is read from its quality and from the other fields, which do not depend on it. -/
theorem ofDatum?_of_record {d : Datum} {front back : Datum.Record} {n : Literal}
    (hfront : front.lookup "jpeg_quality" = none)
    (hd : d.record? fieldNames = some (front ++ ("jpeg_quality", n.datum) :: back)) :
    ofDatum? d = ((front ++ back).required? "index" Ident.ofDatum?).bind fun index =>
      ((front ++ back).optional? "image_format" Ident.ofDatum?).bind fun format =>
        (WireQuality.ofDatum? n.datum).map fun quality => ⟨index, format, some quality⟩ := by
  have hne : "index" ≠ "jpeg_quality" ∧ "image_format" ≠ "jpeg_quality" := by decide
  have hindex := (Datum.Record.read_append_cons_of_ne hne.1 front back n.datum Ident.ofDatum?).1
  have hformat := (Datum.Record.read_append_cons_of_ne hne.2 front back n.datum Ident.ofDatum?).2
  have hquality := Datum.Record.optional?_of_ne_null
    (Datum.Record.lookup_append_cons hfront back n.datum) n.datum_ne_null WireQuality.ofDatum?
  simp only [ofDatum?, hd, hindex, hformat, hquality, Option.bind_eq_bind, Option.bind_some,
    Option.pure_def]
  cases WireQuality.ofDatum? n.datum <;> rfl

/-- A body with any literal for the quality is read just when the quality is, and asks for the
same as with a zero but for it. -/
theorem ofSymbols?_eq (h : Surrounds before after index format) (n : Literal) :
    (Json.ofSymbols? (before ++ (n.text.map some ++ after))).bind ofDatum? =
      (WireQuality.ofDatum? n.datum).map fun quality => ⟨index, format, some quality⟩ := by
  obtain ⟨front, back, hfront, hall⟩ := h.exists_record
  obtain ⟨d₀, hd₀, hrecord₀⟩ := hall .zero
  have hvalid : (Json.ofSymbols? (before ++ (Literal.zero.text.map some ++ after))).bind ofDatum? =
    some ⟨index, format, some (.whole 0)⟩ := h.valid
  rw [hd₀, Option.bind_some, ofDatum?_of_record hfront hrecord₀] at hvalid
  obtain ⟨i, hi, hvalid⟩ := Option.bind_eq_some_iff.1 hvalid
  obtain ⟨f, hf, hvalid⟩ := Option.bind_eq_some_iff.1 hvalid
  obtain ⟨quality, -, hrequest⟩ := Option.map_eq_some_iff.1 hvalid
  obtain ⟨rfl, rfl, -⟩ := SetRequest.mk.inj hrequest
  obtain ⟨d, hd, hrecord⟩ := hall n
  rw [hd, Option.bind_some, ofDatum?_of_record hfront hrecord, hi, hf, Option.bind_some,
    Option.bind_some]

end Surrounds

variable {before after : List Symbol} {index : Ident} {format : Option Ident} {body : ByteArray}

/-- What is read from a body with a literal for the quality, and the patch that it makes. -/
theorem Surrounds.ofBody?_eq (h : Surrounds before after index format) (n : Literal)
    (hbody : Utf8.symbols body = before ++ (n.text.map some ++ after)) :
    ofBody? body =
      (WireQuality.ofDatum? n.datum).map fun quality => ⟨index, format, some quality⟩ := by
  rw [ofBody?, Json.parseBytes?, hbody, h.ofSymbols?_eq]

/-- A request is read if the literal for its quality has a value, and then makes a patch just when
the literal is plain and a whole number of 32 bits. So the rule about numbers, that all these make
patches and no others, holds for the plain literals with a value and for the numbers that cannot
be stored. -/
theorem patch_literal_iff (h : Surrounds before after index format) (n : Literal)
    (hbody : Utf8.symbols body = before ++ (n.text.map some ++ after)) :
    ((ofBody? body).isSome ↔ n.HasDouble) ∧
    ((∃ q, ofBody? body = some q ∧ ((∃ e, q.patch = .error e) ↔ n.IsUnstorable) ∧
        ∀ k : UInt32, n.value = k.toNat → q.patch = .ok ⟨format, some k⟩) ↔
      n.HasDouble ∧ (n.IsPlain ∨ n.IsUnstorable)) ∧
    (|n.value| ≤ Json.largest → n.places.length + 309 ≤ Json.maxExponent → n.HasDouble) := by
  have hread := h.ofBody?_eq n hbody
  refine ⟨by rw [hread, Option.isSome_map, n.ofDatum?_isSome_iff], ?_, n.hasDouble_of_le⟩
  rw [← n.ofDatum?_isSome_iff, n.isUnstorable_iff]
  rcases hquality : WireQuality.ofDatum? n.datum with _ | k | x
  · rw [hquality, Option.map_none] at hread
    rw [hread]
    exact iff_of_false (fun ⟨_, hnone, _⟩ => nomatch hnone) fun h => nomatch h.1
  · rw [hquality, Option.map_some] at hread
    obtain ⟨hplain, hvalue⟩ := n.ofDatum?_eq_whole_iff.1 hquality
    refine iff_of_true ⟨_, hread, ?_, fun j hj => ?_⟩ ⟨rfl, Or.inl hplain⟩
    · exact iff_of_false (fun ⟨_, herror⟩ => nomatch herror) fun h => h k hvalue
    · rw [hvalue, Nat.cast_inj] at hj
      rw [← UInt32.toNat_inj.1 hj]
      rfl
  · rw [hquality, Option.map_some] at hread
    have hunstorable : n.IsPlain → ∀ k : UInt32, n.value ≠ k.toNat := fun hplain k hk => by
      rw [n.ofDatum?_eq_whole_iff.2 ⟨hplain, hk⟩] at hquality
      exact nomatch hquality
    constructor
    · rintro ⟨q, hq, hlaw, -⟩
      obtain rfl := Option.some.inj (hread.symm.trans hq)
      exact ⟨rfl, Or.inr (hlaw.1 ⟨_, rfl⟩)⟩
    · rintro ⟨-, hspelling⟩
      have hnone : ∀ k : UInt32, n.value ≠ k.toNat := hspelling.elim hunstorable id
      exact ⟨_, hread, iff_of_true ⟨_, rfl⟩ hnone, fun k hk => absurd hk (hnone k)⟩

/-- The body with a literal for the quality of the first camera. -/
def literalBody (n : Literal) : ByteArray :=
  ("\x7b\"index\":0,\"jpeg_quality\":" ++ String.ofList n.text ++ "\x7d").toUTF8

theorem symbols_literalBody (n : Literal) : Utf8.symbols (literalBody n) =
    "\x7b\"index\":0,\"jpeg_quality\":".toList.map some ++ (n.text.map some ++ [some '}']) := by
  have hback : "\x7d".toList = ['}'] := rfl
  rw [literalBody, Utf8.symbols_toUTF8, Utf8.ofText]
  simp only [String.toList_append, String.toList_ofList, hback, List.map_append, List.append_assoc,
    List.map_cons, List.map_nil]

theorem surrounds_literalBody :
    Surrounds ("\x7b\"index\":0,\"jpeg_quality\":".toList.map some) [some '}'] (.number 0)
      none := by
  have hchars : "\x7b\"index\":0,\"jpeg_quality\":".toList = '{' :: (Json.quoted "index" ++ ':' ::
      (['0'] ++ ',' :: (Json.quoted "jpeg_quality" ++ [':']))) := by decide
  have hnumber : Json.number? ['0'] = some (.integer 0) :=
    Json.number?_intText (n := 0) (by decide) (by decide)
  have hfields : Json.Cuts (':' :: (['0'] ++ ',' :: (Json.quoted "jpeg_quality" ++ [':'])))
      [.colon, .scalar (.integer 0), .comma, .text (some "jpeg_quality"), .colon] :=
    ((Json.Cuts.number hnumber).append rfl
      ((Json.Cuts.nil.punctuation rfl).quoted _)).punctuation rfl
  have hfront := ((hfields.quoted "index").punctuation (c := '{') rfl).scan?_eq
  have hback := (Json.Cuts.nil.punctuation (c := '}') rfl).scan?_eq
  have hends : Ends [some '}'] := Json.ends_cons rfl rfl []
  have hawaits : Awaits ("\x7b\"index\":0,\"jpeg_quality\":".toList.map some)
      [.table [(some "index", .integer 0)] (some "jpeg_quality")] := by
    rw [hchars]
    exact ⟨_, hfront, rfl⟩
  have hdatum : Literal.zero.datum = .integer 0 :=
    Option.some.inj (Literal.zero.number?_text.symm.trans hnumber)
  have hzero := hawaits.ofSymbols?_eq hends Literal.zero
  rw [hdatum, ← List.map_nil, ← List.map_cons, hback] at hzero
  exact ⟨Or.inl ⟨_, hawaits⟩, hends, congrArg (Option.bind · ofDatum?) hzero⟩

theorem patch_literal_iff_plain : ∃ q,
    ofBody? "\x7b\"index\":0,\"jpeg_quality\":70\x7d".toUTF8 = some q ∧
      q.patch = .ok ⟨none, some 70⟩ := by
  let n : Literal := ⟨false, ['7', '0'], none, none, rfl⟩
  have hbody : literalBody n = "\x7b\"index\":0,\"jpeg_quality\":70\x7d".toUTF8 :=
    congrArg String.toUTF8 (by decide)
  have hplain : n.IsPlain := by decide
  have hvalue : n.value = (70 : UInt32).toNat := n.value_of_isPlain hplain
  obtain ⟨-, hlaw, hrange⟩ :=
    patch_literal_iff surrounds_literalBody n (symbols_literalBody n)
  have hdouble : n.HasDouble := by
    refine hrange ?_ (by decide)
    have hle : (70 : UInt32).toNat ≤ Json.largest := by decide +kernel
    rw [hvalue, Nat.abs_cast]
    exact_mod_cast hle
  obtain ⟨q, hq, -, hpatch⟩ := hlaw.2 ⟨hdouble, Or.inl hplain⟩
  exact ⟨q, hbody ▸ hq, hpatch 70 hvalue⟩

/-- A whole number with a point is refused as a quality, though it could be stored. -/
theorem patch_literal_point :
    (∃ n : Literal, n.text = "85.0".toList ∧ n.value = (85 : UInt32).toNat) ∧ ∃ q,
      ofBody? "\x7b\"index\":0,\"jpeg_quality\":85.0\x7d".toUTF8 = some q ∧
        q.patch = .error ⟨"85"⟩ := by
  let n : Literal := ⟨false, ['8', '5'], some ⟨['0'], by decide, List.all_eq_true.1 rfl⟩, none, rfl⟩
  have hbody : literalBody n = "\x7b\"index\":0,\"jpeg_quality\":85.0\x7d".toUTF8 :=
    congrArg String.toUTF8 (by decide)
  have hvalue : n.value = (85 : UInt32).toNat := by
    have hmantissa : n.mantissa = 850 := by decide
    have hscale : n.scale = -1 := rfl
    have hsign : n.negative = false := rfl
    have hquality : (85 : UInt32).toNat = 85 := rfl
    rw [Literal.value, hmantissa, hscale, hsign, hquality]
    norm_num
  refine ⟨⟨n, by decide, hvalue⟩, ?_⟩
  have hplain : n.double?.map Binary64.plain = some "85" := by decide +kernel
  obtain ⟨x, hx, htext⟩ := Option.map_eq_some_iff.1 hplain
  have hdatum : n.datum = .real x := by
    rw [Literal.datum, if_neg (by simp [n]), hx]
    rfl
  have hread := surrounds_literalBody.ofBody?_eq n (symbols_literalBody n)
  rw [hdatum, hbody] at hread
  exact ⟨_, hread, by rw [← htext]; rfl⟩

/-- A number below the greatest double is not read where its digits are scaled too far. -/
theorem ofBody?_literal_scaled :
    (∃ n : Literal, n.text = "17976931348623157081e289".toList ∧
      n.value ≤ Json.greatest) ∧
    ofBody? "\x7b\"index\":0,\"jpeg_quality\":17976931348623157081e289\x7d".toUTF8 = none := by
  let n : Literal := ⟨false, "17976931348623157081".toList, none,
    some ⟨'e', none, ⟨['2', '8', '9'], by decide, List.all_eq_true.1 rfl⟩, Or.inl rfl, nofun⟩,
    by decide⟩
  have hbody : literalBody n =
      "\x7b\"index\":0,\"jpeg_quality\":17976931348623157081e289\x7d".toUTF8 :=
    congrArg String.toUTF8 (by decide)
  have hvalue : n.value ≤ Json.greatest := by
    obtain ⟨k, hk⟩ : ∃ k : Nat, k = 289 := ⟨_, rfl⟩
    have hscale : n.scale = k := by
      rw [hk]
      decide
    have hle : n.mantissa * 10 ^ k ≤ Json.greatest := by
      rw [hk]
      decide +kernel
    have hvalue : n.value = 1 * n.mantissa * 10 ^ n.scale := rfl
    rw [hvalue, one_mul, hscale, zpow_natCast]
    exact_mod_cast hle
  refine ⟨⟨n, by decide, hvalue⟩, ?_⟩
  have hdouble : n.double? = none := by decide +kernel
  have hdatum : n.datum = .unreadable := by
    rw [Literal.datum, if_neg (by simp [n]), hdouble]
    rfl
  have hread := surrounds_literalBody.ofBody?_eq n (symbols_literalBody n)
  rw [hdatum, hbody] at hread
  exact hread

end SetRequest

end CameraFleet
