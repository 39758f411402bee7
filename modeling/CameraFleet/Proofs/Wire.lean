import Mathlib
import CameraFleet.Patch
import CameraFleet.Wire
import CameraFleet.Proofs.Datum.Record
import CameraFleet.Proofs.Ident.Canonical

/-!
# What goes over the wire

A request to change a configuration is read back from its document, with the kind of its quality
kept (`SetRequest.ofDatum?_toDatum`), and so are the word that a change succeeded and the reason
for a refusal.
-/

namespace CameraFleet

namespace WireQuality

theorem ofDatum?_toDatum (q : WireQuality) : ofDatum? q.toDatum = some q := by
  cases q with
  | whole n => simp only [toDatum, ofDatum?, Datum.uint32?_toNat]
  | other x => rfl

theorem written_whole (n : UInt32) : Json.Written (whole n).toDatum := by
  have := n.toNat_lt
  exact .integer (by omega) (by omega)

end WireQuality

namespace SetRequest

open Datum.Record

/-- The fields that a request is written with. -/
def record (q : SetRequest) : Datum.Record :=
  [("index", q.index.toDatum)] ++ (q.format.map fun id => ("image_format", id.toDatum)).toList ++
    (q.quality.map fun v => ("jpeg_quality", v.toDatum)).toList

theorem record?_toDatum (q : SetRequest) : q.toDatum.record? fieldNames = some q.record := by
  have hnames : ∀ f ∈ q.record, f.1 ∈ fieldNames := by
    unfold record
    rcases q.format with _ | id <;> rcases q.quality with _ | v <;> simp [fieldNames]
  have hnodup : (q.record.map (·.1)).Nodup := by
    unfold record
    rcases q.format with _ | id <;> rcases q.quality with _ | v <;> simp
  exact Datum.record?_ofFields hnames hnodup

theorem lookup_format (q : SetRequest) :
    q.record.lookup "image_format" = q.format.map Ident.toDatum := by
  rw [record, List.lookup_append, List.lookup_append, lookup_optional,
    lookup_optional_of_ne (by decide), Option.or_none]
  rfl

theorem lookup_quality (q : SetRequest) :
    q.record.lookup "jpeg_quality" = q.quality.map WireQuality.toDatum := by
  rw [record, List.lookup_append, List.lookup_append, lookup_optional,
    lookup_optional_of_ne (by decide)]
  rfl

/-- A request between canonical identifiers is read back from its document. -/
theorem ofDatum?_toDatum {q : SetRequest} (hindex : q.index.IsCanonical)
    (hformat : ∀ id, q.format = some id → id.IsCanonical) : ofDatum? q.toDatum = some q := by
  have hindex : q.record.required? "index" Ident.ofDatum? = some q.index :=
    Ident.ofDatum?_toDatum_iff.2 hindex
  have hformat : q.record.optional? "image_format" Ident.ofDatum? = some q.format := by
    refine optional?_eq (lookup_format q) fun id hid => ⟨?_, ?_⟩
    · cases id <;> exact Datum.noConfusion
    · exact Ident.ofDatum?_toDatum_iff.2 (hformat id hid)
  have hquality : q.record.optional? "jpeg_quality" WireQuality.ofDatum? = some q.quality := by
    refine optional?_eq (lookup_quality q) fun v _ => ⟨?_, WireQuality.ofDatum?_toDatum v⟩
    cases v <;> exact Datum.noConfusion
  unfold ofDatum?
  rw [record?_toDatum]
  simp only [Option.bind_eq_bind, Option.bind_some, Option.pure_def, hindex, hformat, hquality]

theorem written_toDatum {q : SetRequest}
    (hquality : ∀ v, q.quality = some v → Json.Written v.toDatum) : Json.Written q.toDatum := by
  have hfields : ∀ f ∈ q.record, Json.Written f.2 := by
    intro f hf
    simp only [record, List.mem_append, List.mem_singleton, Option.mem_toList,
      Option.map_eq_some_iff] at hf
    rcases hf with (rfl | ⟨id, -, rfl⟩) | ⟨v, hv, rfl⟩
    · exact q.index.written_toDatum
    · exact id.written_toDatum
    · exact hquality v hv
  exact .table hfields

end SetRequest

theorem Confirmation.ofDatum?_toDatum (c : Confirmation) : ofDatum? c.toDatum = some c := rfl

theorem Complaint.ofDatum?_toDatum (c : Complaint) : ofDatum? c.toDatum = some c := rfl

end CameraFleet
