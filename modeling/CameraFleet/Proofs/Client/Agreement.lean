import CameraFleet.DemoFleet
import CameraFleet.Proofs.Client.Rooted
import CameraFleet.Proofs.Service.Runs
import CameraFleet.Proofs.Wire

/-!
# Client and service agree

A client that changes a configuration over a link to a service does to the registry what the
change does there, and is told what came of it (`setConfig_agrees`): the request carries the
change unharmed, and each way in which a change fails has a refusal of its own, which the client
reads back.
-/

namespace CameraFleet

namespace Registry

/-- A change fails because there is no such camera, no such format, or the quality is refused. -/
theorem apply_error {r : Registry} {index : Ident} {p : Patch} {e : Failure}
    (h : (r.apply index p).1 = .error e) : e = .notFound index ∨
      (∃ id, e = .invalidFormat index id) ∨ ∃ i v lo hi, e = .invalidQuality i v lo hi := by
  rcases hc : r.get? index with _ | c
  · rw [apply_of_unknown hc] at h
    exact Or.inl (Except.error.inj h).symm
  · rcases hd : patched r.options index c p with e' | d
    · rw [apply_of_error hc hd] at h
      obtain rfl := Except.error.inj h
      rcases patched_error.1 hd with ⟨id, -, -, rfl⟩ | ⟨-, v, range, -, -, rfl⟩
      · exact Or.inr (Or.inl ⟨id, rfl⟩)
      · exact Or.inr (Or.inr ⟨_, v, range.min, range.max, rfl⟩)
    · rw [apply_of_ok hc hd] at h
      exact absurd h (by simp)

end Registry

namespace Service

/-- What is answered to a change. -/
def reply : Except Failure Camera → Http.Response
  | .ok _ => .json 200 updated.toDatum
  | .error e => (Refusal.ofFailure e).document

/-- A body that carries a patch is answered for what the patch does to the registry. -/
theorem setConfig_of_call {r : Registry} {body : ByteArray} {q : SetRequest} {p : Patch}
    (hsize : body.size ≤ bodyLimit) (hbody : SetRequest.ofBody? body = some q)
    (hpatch : q.patch = .ok p) :
    setConfig r body = (reply (r.apply q.index p).1, (r.apply q.index p).2) := by
  unfold setConfig
  rw [if_neg (Nat.not_lt.2 hsize),
    show (Json.parseBytes? body).bind SetRequest.ofDatum? = some q from hbody]
  rcases hc : r.get? q.index with _ | c
  · simp only [Registry.contains, hc, Option.isSome_none, Bool.not_false, if_true,
      Registry.apply_of_unknown hc]
    rfl
  · simp only [Registry.contains, hc, Option.isSome_some, Bool.not_true, Bool.false_eq_true,
      if_false, hpatch]
    rcases r.apply q.index p with ⟨e | d, r'⟩
    · rfl
    · rfl

end Service

namespace Client

variable {r : Http.Response}

theorem readDocument_of_written {α : Type} {ofDatum? : Datum → Option α} {d : Datum} {a : α}
    (hstatus : r.status = 200) (hbody : r.body = (Json.render d).toUTF8) (hd : Json.Written d)
    (ha : ofDatum? d = some a) : readDocument ofDatum? r = .ok a := by
  unfold readDocument isSuccess
  simp only [hstatus, hbody, Json.parseBytes?_toUTF8_render hd, Option.bind_some, ha]
  rfl

theorem reason_document (refusal : Refusal) :
    Error.reason refusal.document.body = refusal.message := by
  have hwritten : Json.Written (Complaint.toDatum ⟨refusal.message⟩) := by
    refine .table fun f hf => ?_
    rw [List.mem_singleton.1 hf]
    exact .text refusal.message
  unfold Error.reason
  simp only [Refusal.document, Http.Response.json, Utf8.decodeLossy_toUTF8,
    Json.parse?_render hwritten, Option.bind_some, Complaint.ofDatum?_toDatum]

theorem readConfirmation_updated (hstatus : r.status = 200)
    (hbody : r.body = (Json.render Service.updated.toDatum).toUTF8) :
    readConfirmation r = .ok Service.updated := by
  have hwritten : Json.Written Service.updated.toDatum := by
    refine .table fun f hf => ?_
    simp only [List.mem_cons, List.not_mem_nil, or_false] at hf
    rcases hf with rfl | rfl
    · exact .bool _
    · exact .text _
  exact readDocument_of_written hstatus hbody hwritten (Confirmation.ofDatum?_toDatum _)

theorem readConfirmation_notFound {message : String} (hstatus : r.status = 404)
    (hbody : r.body = (Refusal.mk 404 message).document.body) :
    readConfirmation r = .error (.notFound message) := by
  unfold readConfirmation readDocument isSuccess Error.ofResponse
  simp only [hstatus, hbody, reason_document]
  rfl

theorem readConfirmation_badRequest {message : String} (hstatus : r.status = 400)
    (hbody : r.body = (Refusal.mk 400 message).document.body) :
    readConfirmation r = .error (.badRequest message) := by
  unfold readConfirmation readDocument isSuccess Error.ofResponse
  simp only [hstatus, hbody, reason_document]
  rfl

/-- What the client is told of a change. -/
inductive Told : Except Failure Camera → Except Error Confirmation → Prop where
  | done (c : Camera) : Told (.ok c) (.ok Service.updated)
  | notFound (index : Ident) :
    Told (.error (.notFound index)) (.error (.notFound "Camera not found"))
  | invalidFormat (index id : Ident) :
    Told (.error (.invalidFormat index id)) (.error (.badRequest "Invalid image format"))
  | invalidQuality (index : Ident) (v lo hi : UInt32) :
    Told (.error (.invalidQuality index v lo hi)) (.error (.badRequest "Invalid quality"))

theorem told_reply {registry : Registry} {index : Ident} {p : Patch}
    (hstatus : r.status = (Service.reply (registry.apply index p).1).status)
    (hbody : r.body = (Service.reply (registry.apply index p).1).body) :
    Told (registry.apply index p).1 (readConfirmation r) := by
  rcases h : (registry.apply index p).1 with e | c
  · rw [h] at hstatus hbody
    rcases Registry.apply_error h with rfl | ⟨id, rfl⟩ | ⟨i, v, lo, hi, rfl⟩
    · rw [readConfirmation_notFound hstatus hbody]
      exact .notFound _
    · rw [readConfirmation_badRequest hstatus hbody]
      exact .invalidFormat _ _
    · rw [readConfirmation_badRequest hstatus hbody]
      exact .invalidQuality _ _ _ _
  · rw [h] at hstatus hbody
    rw [readConfirmation_updated hstatus hbody]
    exact .done c

/-- The body of the request to change a configuration. -/
def setBody (index : Ident) (p : Patch) : ByteArray :=
  (Json.render (SetRequest.ofPatch index p).toDatum).toUTF8

theorem written_ofPatch (index : Ident) (p : Patch) :
    Json.Written (SetRequest.ofPatch index p).toDatum := by
  refine SetRequest.written_toDatum fun v hv => ?_
  obtain ⟨n, -, rfl⟩ := Option.map_eq_some_iff.1 hv
  exact WireQuality.written_whole n

theorem ofBody?_setBody {index : Ident} {p : Patch} (hindex : index.IsCanonical)
    (hformat : ∀ id, p.format = some id → id.IsCanonical) :
    SetRequest.ofBody? (setBody index p) = some (.ofPatch index p) := by
  rw [SetRequest.ofBody?, setBody, Json.parseBytes?_toUTF8_render (written_ofPatch index p),
    Option.bind_some]
  exact SetRequest.ofDatum?_toDatum hindex hformat

theorem patch_ofPatch (index : Ident) (p : Patch) : (SetRequest.ofPatch index p).patch = .ok p := by
  obtain ⟨format, _ | n⟩ := p <;> rfl

variable {c : Client} {index : Ident} {p : Patch}

/-- A change over a link to a service does what it does to the registry, and the client is told
what came of it. -/
theorem told_setConfig (s : Service) (time : String) (hc : c.IsRooted)
    (hindex : index.IsCanonical) (hformat : ∀ id, p.format = some id → id.IsCanonical)
    (hsize : (setBody index p).size ≤ Service.bodyLimit) :
    (c.setConfig (Service.link time) index p s).2 =
        { s with registry := (s.registry.apply index p).2 } ∧
      Told (s.registry.apply index p).1 (c.setConfig (Service.link time) index p s).1 := by
  have htarget : (Http.Target.ofText Route.setConfig.path).path = Route.setConfig.path := by decide
  have hset : Service.IsSetConfig ⟨"POST", Route.setConfig.path,
      [("content-type", "application/json")], setBody index p⟩ := ⟨rfl, htarget⟩
  have hcall := Service.setConfig_of_call (r := s.registry) hsize (ofBody?_setBody hindex hformat)
    (patch_ofPatch index p)
  have hrequest : c.setRequest? index p = some ⟨"POST", Route.setConfig.path,
      [("content-type", "application/json")], setBody index p⟩ := by
    rw [setRequest?, hc]
    rfl
  rw [setConfig, hrequest, exchange_link, Service.respond_setConfig hset, hcall]
  exact ⟨rfl, told_reply rfl rfl⟩

/-- A client at the root of a service changes a configuration as the registry behind it does. It
is told of success exactly when the registry takes the change, and otherwise why it does not. -/
theorem setConfig_agrees (s : Service) (time : String) (hc : c.IsRooted)
    (hindex : index.IsCanonical) (hformat : ∀ id, p.format = some id → id.IsCanonical)
    (hsize : (setBody index p).size ≤ Service.bodyLimit) :
    let called := c.setConfig (Service.link time) index p s
    let applied := s.registry.apply index p
    called.2 = { s with registry := applied.2 } ∧
      ((∃ w, called.1 = .ok w ∧ w.success = true) ↔ ∃ d, applied.1 = .ok d) ∧
      (called.1 = .error (.notFound "Camera not found") ↔
        ∃ i, applied.1 = .error (.notFound i)) ∧
      (called.1 = .error (.badRequest "Invalid image format") ↔
        ∃ i id, applied.1 = .error (.invalidFormat i id)) ∧
      (called.1 = .error (.badRequest "Invalid quality") ↔
        ∃ i v lo hi, applied.1 = .error (.invalidQuality i v lo hi)) ∧
      ((∃ w, called.1 = .ok w ∧ w.success = true) ∨
        called.1 = .error (.notFound "Camera not found") ∨
        called.1 = .error (.badRequest "Invalid image format") ∨
        called.1 = .error (.badRequest "Invalid quality")) := by
  intro called applied
  obtain ⟨hs, htold⟩ := told_setConfig s time hc hindex hformat hsize
  refine ⟨hs, ?_⟩
  change Told applied.1 called.1 at htold
  generalize applied.1 = x at htold ⊢
  generalize called.1 = y at htold ⊢
  cases htold <;> simp [Service.updated]

theorem setConfig_agrees_demoFleet :
    ∃ r, Registry.ofCameras DemoFleet.cameras ⟨default, .strict⟩ = .ok r ∧
      (Client.setConfig ⟨⟨"http://" ++ String.ofList ("localhost".toList ++ ':' ::
          Natural.digits (8080 : UInt16).toNat)⟩⟩ (Service.link "2025-01-01T00:00:00Z")
        (.number 1) ⟨some (.ofText "3"), some 50⟩ ⟨default, r, .synthetic⟩).1 =
          .error (.badRequest "Invalid quality") := by
  have happly : (Registry.ofCameras DemoFleet.cameras ⟨default, .strict⟩).toOption.map
      (fun r => (r.apply (.number 1) ⟨some (.ofText "3"), some 50⟩).1) =
        some (.error (.invalidQuality (.number 1) 50 60 100)) := by decide +kernel
  rcases h : Registry.ofCameras DemoFleet.cameras ⟨default, .strict⟩ with e | r
  · rw [h] at happly
    exact absurd happly (by simp [Except.toOption])
  · rw [h] at happly
    refine ⟨r, rfl, ?_⟩
    have hformat : ∀ id, (Patch.mk (some (.ofText "3")) (some 50)).format = some id →
        id.IsCanonical := by
      rintro id ⟨⟩
      exact Ident.isCanonical_ofText "3"
    have hagrees := setConfig_agrees ⟨default, r, .synthetic⟩ "2025-01-01T00:00:00Z"
      (isRooted_localhost 8080) (Ident.isCanonical_number 1) hformat (by decide +kernel)
    exact hagrees.2.2.2.2.1.2 ⟨_, _, _, _, Option.some.inj happly⟩

end Client

end CameraFleet
