import CameraFleet.Http.Cors
import CameraFleet.Proofs.Number.Decimal

/-!
# The headers of answers

A header is found under its name unless one before it has the same name (`Headers.get?_cons`), and
headers of other names behind it change nothing (`Headers.get?_append_of_absent`). A text can be
the value of a header if all its characters can be sent (`isHeaderValue_iff`).
-/

namespace CameraFleet.Http

/-! ## Names -/

section Names

variable {hs hs' : Headers} {name : String}

theorem Headers.get?_append_of_absent (h : ∀ x ∈ hs', Text.lower x.1 ≠ name) :
    Headers.get? (hs ++ hs') name = Headers.get? hs name := by
  have hnone : hs'.find? (fun x => Text.lower x.1 = name) = none := by simpa using h
  simp [Headers.get?, List.find?_append, hnone]

/-- The names of the headers that say something of the answer itself. -/
def Headers.ownNames : List String :=
  ["content-type", "content-disposition", "cache-control", "x-framerate", "location", "allow"]

/-- The names of all headers that answers have. -/
def Headers.sentNames : List String :=
  ownNames ++ ["vary", "access-control-allow-origin", "access-control-allow-methods",
    "access-control-allow-headers", "access-control-expose-headers"]

theorem Headers.lower_of_sent (h : name ∈ sentNames) : Text.lower name = name := by
  have hlower : ∀ name ∈ sentNames, Text.lower name = name := by decide +kernel
  exact hlower name h

@[simp] theorem Headers.get?_nil : Headers.get? [] name = none := rfl

theorem Headers.get?_cons {own value : String} (h : own ∈ ownNames) :
    Headers.get? ((own, value) :: hs) name =
      if own = name then some value else Headers.get? hs name := by
  simp only [Headers.get?, List.find?_cons, lower_of_sent (List.mem_append_left _ h)]
  by_cases hname : own = name <;> simp [hname]

/-- The names of the headers for other sites. -/
def Cors.siteNames : List String :=
  ["vary", "access-control-allow-origin", "access-control-expose-headers"]

theorem Cors.mem_siteNames {p : Policy} {origin : Option String} {x : String × String}
    (hx : x ∈ answerHeaders p origin) : Text.lower x.1 ∈ siteNames := by
  have hsent : ∀ name ∈ siteNames, name ∈ Headers.sentNames := by decide
  have hname : x.1 ∈ siteNames := by
    simp only [answerHeaders, originHeaders, List.cons_append, List.mem_cons, List.mem_append,
      Option.mem_toList, Option.map_eq_some_iff] at hx
    rcases hx with rfl | ⟨v, -, rfl⟩ | ⟨v, -, rfl⟩ <;> simp [siteNames, varyHeader]
  rwa [Headers.lower_of_sent (hsent _ hname)]

end Names

/-! ## Values -/

section Values

variable {s t : String} {c : Char}

/-- A character that the value of a header can have. -/
def IsSendable (c : Char) : Prop := ' ' ≤ c ∧ c ≠ '\x7f' ∨ c = '\t'

theorem isHeaderValue_iff : isHeaderValue s ↔ ∀ c ∈ s.toList, IsSendable c := by
  simp [isHeaderValue, IsSendable]

theorem isHeaderValue_append : isHeaderValue (s ++ t) ↔ isHeaderValue s ∧ isHeaderValue t := by
  simp [isHeaderValue]

theorem isSendable_of_isDigit (h : c.isDigit) : IsSendable c :=
  Or.inl (Natural.of_isDigit h (by decide))

end Values

namespace Response

variable {status failing : Nat} {headers : Headers} {body : ByteArray}

theorem withHeaders_of_valid (h : ∀ x ∈ headers, isHeaderValue x.2) :
    withHeaders status failing headers body = ⟨status, headers, body⟩ :=
  if_pos (List.all_eq_true.2 h)

theorem withHeaders_of_invalid (h : ¬ ∀ x ∈ headers, isHeaderValue x.2) :
    withHeaders status failing headers body = text failing "failed to parse header value" :=
  if_neg (mt List.all_eq_true.1 h)

end Response

end CameraFleet.Http
