import CameraFleet.Proofs.Client.Agreement
import CameraFleet.Proofs.Service.Answers

/-!
# Refusals are read back

A text that begins as no token does is no document (`Json.parse?_of_isForeign`). The messages of
refusals are such, and no other text that a service answers with is a document
(`Service.parse?_respond`). So a client reads each refusal with its status and its message,
whether it comes as a document or as a text (`Client.ofResponse_ofFailure`).
-/

namespace CameraFleet

namespace Json

namespace Token

/-- No token begins with the character, and it is no blank. -/
def IsForeign (c : Char) : Prop :=
  isBlank c = false ∧ punctuation? c = none ∧ c ≠ '\x22' ∧ ¬ (c = '-' ∨ c.isDigit) ∧
    c ∉ ['n', 't', 'f']

instance (c : Char) : Decidable (IsForeign c) :=
  inferInstanceAs (Decidable (_ ∧ _))

theorem word?_of_isForeign {c : Char} (h : IsForeign c) (cs : List Char) :
    word? (c :: cs) = none := by
  have hc := h.2.2.2.2
  simp only [List.mem_cons, List.not_mem_nil, or_false, not_or] at hc
  simp [word?, hc.1, hc.2.1, hc.2.2]

theorem scanFrom_of_isForeign {c : Char} (h : IsForeign c) (found : List Token)
    (rest : List Utf8.Symbol) : scanFrom found (some c :: rest) = none := by
  have hword := word?_of_isForeign h ((rest.takeWhile inWord).filterMap id)
  obtain ⟨hblank, hmark, hquote, hnumber, -⟩ := h
  rw [scanFrom, if_neg (by simp [hblank])]
  simp only [hmark]
  rw [if_neg hquote, if_neg hnumber, hword]

end Token

/-- The text begins as no document does. -/
def IsForeign (s : String) : Prop := ∃ c ∈ s.toList.head?, Token.IsForeign c

theorem IsForeign.append {s : String} (h : IsForeign s) (t : String) : IsForeign (s ++ t) := by
  obtain ⟨c, hc, hforeign⟩ := h
  refine ⟨c, ?_, hforeign⟩
  simp [List.head?_append, Option.mem_def.1 hc]

theorem parse?_of_isForeign {s : String} (h : IsForeign s) : parse? s = none := by
  obtain ⟨c, hc, hforeign⟩ := h
  obtain ⟨rest, hs⟩ := List.head?_eq_some_iff.1 (Option.mem_def.1 hc)
  simp [parse?, ofSymbols?, Utf8.ofText, hs, Token.scan?, Token.scanFrom_of_isForeign hforeign]

theorem parse?_empty : parse? "" = none := by
  simp [parse?, ofSymbols?, Utf8.ofText, Token.scan?, Token.scanFrom, ofTokens?, Reader.run]

end Json

open Json (IsForeign)

/-- What is told of a failure begins with the letter of a word that is none of the words for
null, true and false. -/
theorem Refusal.isForeign_ofFailure (e : Failure) : IsForeign (ofFailure e).message := by
  cases e with
  | missingParameter name =>
    have h : IsForeign "Missing " := ⟨'M', rfl, by decide⟩
    exact (h.append _).append _
  | notFound =>
    have h : IsForeign "Camera not found" := ⟨'C', rfl, by decide⟩
    exact h
  | invalidFormat =>
    have h : IsForeign "Invalid image format" := ⟨'I', rfl, by decide⟩
    exact h
  | invalidQuality =>
    have h : IsForeign "Invalid quality" := ⟨'I', rfl, by decide⟩
    exact h
  | invalidSeed =>
    have h : IsForeign "invalid camera definition: " := ⟨'i', rfl, by decide⟩
    exact h.append _
  | duplicateIndex =>
    have h : IsForeign "camera index " := ⟨'c', rfl, by decide⟩
    exact (h.append _).append _
  | invalidTemplate =>
    have h : IsForeign "invalid preview template \x60" := ⟨'i', rfl, by decide⟩
    exact (h.append _).append _
  | capture =>
    have h : IsForeign "Capture failed" := ⟨'C', rfl, by decide⟩
    exact h

namespace Service

open Http (Headers.get? Headers.get?_cons)
open Http.Response (plainText)

theorem parse?_unsendable : Json.parse? "failed to parse header value" = none := by
  decide +kernel

theorem parse?_decodeLossy_empty : Json.parse? (Utf8.decodeLossy .empty) = none := by
  rw [show ByteArray.empty = "".toUTF8 from rfl, Utf8.decodeLossy_toUTF8, Json.parse?_empty]

theorem parse?_withHeaders {status failing : Nat} {headers : Http.Headers} {body : ByteArray}
    (hheaders : Headers.get? headers "content-type" ≠ some plainText)
    (h : Headers.get? (Http.Response.withHeaders status failing headers body).headers
      "content-type" = some plainText) :
    Json.parse? (Utf8.decodeLossy
      (Http.Response.withHeaders status failing headers body).body) = none := by
  by_cases hvalid : ∀ x ∈ headers, Http.isHeaderValue x.2
  · rw [Http.Response.withHeaders_of_valid hvalid] at h
    exact absurd h hheaders
  · rw [Http.Response.withHeaders_of_invalid hvalid, Http.Response.text,
      Utf8.decodeLossy_toUTF8, parse?_unsendable]

/-- No answer that is called a text is a document. -/
theorem Answers.parse?_eq_none {s : Service} {a : Http.Response} (ha : Answers s a)
    (h : Headers.get? a.headers "content-type" = some plainText) :
    Json.parse? (Utf8.decodeLossy a.body) = none := by
  cases ha with
  | unrouted => exact parse?_decodeLossy_empty
  | refusedMethod route => exact parse?_decodeLossy_empty
  | tooLarge =>
    simp only [Http.Response.text, Utf8.decodeLossy_toUTF8]
    exact Json.parse?_of_isForeign ⟨'F', rfl, by decide⟩
  | document hstatus d =>
    simp (disch := decide) [Http.Response.json, Headers.get?_cons, plainText] at h
  | duplicate =>
    simp only [Http.Response.text, Utf8.decodeLossy_toUTF8]
    exact Json.parse?_of_isForeign ⟨'F', rfl, by decide⟩
  | refused hrefused =>
    simp only [Refusal.plain, Http.Response.text, Utf8.decodeLossy_toUTF8]
    exact Json.parse?_of_isForeign (Refusal.isForeign_ofFailure _)
  | image himage =>
    refine parse?_withHeaders ?_ h
    simp (disch := decide) [Headers.get?_cons]
  | binary hbinary =>
    refine parse?_withHeaders ?_ h
    simp (disch := decide) [downloadHeaders, Headers.get?_cons, plainText]

theorem parse?_respond {s : Service} {time : String} {q : Http.Request}
    (h : Headers.get? (s.respond time q).1.headers "content-type" = some plainText) :
    Json.parse? (Utf8.decodeLossy (s.respond time q).1.body) = none := by
  rcases respond_cases s time q with ⟨-, -, hbody⟩ | ⟨a, ha, -, hheaders, hbody⟩
  · rw [hbody, parse?_decodeLossy_empty]
  · rw [hheaders, get?_append_siteHeaders (by decide)] at h
    rw [hbody]
    split_ifs
    · exact parse?_decodeLossy_empty
    · exact ha.parse?_eq_none h

end Service

namespace Client

theorem reason_plain {refusal : Refusal} (h : IsForeign refusal.message) :
    Error.reason refusal.plain.body = refusal.message := by
  unfold Error.reason
  simp only [Refusal.plain, Http.Response.text, Utf8.decodeLossy_toUTF8, Json.parse?_of_isForeign h,
    Option.bind_none]

/-- Whatever a failure tells of, and whether its refusal is sent as a document or as a text, the
client reads the status and the message of the refusal. No text that a service answers with is
taken for a document. -/
theorem ofResponse_ofFailure (e : Failure) :
    let refusal := Refusal.ofFailure e
    (∀ a ∈ [refusal.document, refusal.plain],
      (a.status = 404 → Error.ofResponse a = .notFound refusal.message) ∧
      (a.status = 400 → Error.ofResponse a = .badRequest refusal.message) ∧
      (a.status ≠ 404 → a.status ≠ 400 →
        Error.ofResponse a = .unexpected a.status refusal.message)) ∧
    ∀ (s : Service) (time : String) (q : Http.Request),
      Http.Headers.get? (s.respond time q).1.headers "content-type" =
        some Http.Response.plainText →
      Json.parse? (Utf8.decodeLossy (s.respond time q).1.body) = none := by
  intro refusal
  refine ⟨fun a ha => ?_, fun s time q h => Service.parse?_respond h⟩
  have hreason : Error.reason a.body = refusal.message := by
    simp only [List.mem_cons, List.not_mem_nil, or_false] at ha
    rcases ha with rfl | rfl
    · exact reason_document refusal
    · exact reason_plain (Refusal.isForeign_ofFailure e)
  unfold Error.ofResponse
  rw [hreason]
  exact ⟨fun h => if_pos h, fun h => by simp [h], fun h h' => by simp [h, h']⟩

end Client

end CameraFleet
