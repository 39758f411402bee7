import CameraFleet.Camera
import CameraFleet.Proofs.Datum.Record
import CameraFleet.Proofs.Ident.Canonical

/-!
# Documents of cameras

A camera is read from its fields as it was written, with any of the optional fields present or
absent, but for its identifiers, which are read as what their texts name, and for its rate
(`Camera.ofDatum?_record`). So it is read back as it is just when its identifiers are canonical
and the rate is read as it is (`Camera.ofDatum?_record_eq_iff`).
-/

namespace CameraFleet

open Datum.Record
open Json (Fits Writable Written reread)

namespace QualityRange

/-- The fields that a range is written with. -/
def record (r : QualityRange) : Datum.Record :=
  [("min", .integer r.min.toNat), ("max", .integer r.max.toNat)] ++
    (r.step.map fun n => ("step", Datum.integer n.toNat)).toList ++
    (r.default.map fun n => ("default", Datum.integer n.toNat)).toList

theorem record?_toDatum (r : QualityRange) : r.toDatum.record? fieldNames = some r.record := by
  refine Datum.record?_of_sublist ?_ (by decide)
  simp only [List.map_append]
  exact ((List.Sublist.refl _).append (sublist_optional "step" _ _)).append
    (sublist_optional "default" _ _)

theorem ofDatum?_toDatum (r : QualityRange) : ofDatum? r.toDatum = some r := by
  have hmin : r.record.required? "min" Datum.uint32? = some r.min := Datum.uint32?_toNat r.min
  have hmax : r.record.required? "max" Datum.uint32? = some r.max := Datum.uint32?_toNat r.max
  have hstep : r.record.optional? "step" Datum.uint32? = some r.step := by
    refine optional?_eq (f := fun n => .integer n.toNat) ?_ fun n _ =>
      ⟨Datum.noConfusion, Datum.uint32?_toNat n⟩
    simp [record, List.lookup_append, lookup_optional, lookup_optional_of_ne, List.lookup_cons]
  have hdefault : r.record.optional? "default" Datum.uint32? = some r.default := by
    refine optional?_eq (f := fun n => .integer n.toNat) ?_ fun n _ =>
      ⟨Datum.noConfusion, Datum.uint32?_toNat n⟩
    simp [record, List.lookup_append, lookup_optional, lookup_optional_of_ne, List.lookup_cons]
  unfold ofDatum?
  rw [record?_toDatum]
  simp only [Option.bind_eq_bind, Option.bind_some, Option.pure_def, hmin, hmax, hstep, hdefault]

theorem fits_toDatum (room : Nat) (r : QualityRange) : Fits (room + 1) r.toDatum := by
  refine .table ?_
  simp only [List.forall_mem_append, forall_mem_optional, List.forall_mem_cons]
  exact ⟨⟨⟨.uint32 _ _, .uint32 _ _, nofun⟩, fun n _ => .uint32 _ n⟩, fun n _ => .uint32 _ n⟩

end QualityRange

namespace Resolution

theorem ofDatum?_toDatum (r : Resolution) : ofDatum? r.toDatum = some r := by
  have hrecord : r.toDatum.record? fieldNames =
      some [("width", .integer r.width.toNat), ("height", .integer r.height.toNat)] :=
    Datum.record?_of_sublist (List.Sublist.refl _) (by decide)
  have hwidth : Datum.Record.required? [("width", .integer r.width.toNat),
      ("height", .integer r.height.toNat)] "width" Datum.uint32? = some r.width :=
    Datum.uint32?_toNat r.width
  have hheight : Datum.Record.required? [("width", .integer r.width.toNat),
      ("height", .integer r.height.toNat)] "height" Datum.uint32? = some r.height :=
    Datum.uint32?_toNat r.height
  unfold ofDatum?
  rw [hrecord]
  simp only [Option.bind_eq_bind, Option.bind_some, Option.pure_def, hwidth, hheight]

theorem fits_toDatum (room : Nat) (r : Resolution) : Fits (room + 1) r.toDatum := by
  refine .table ?_
  simp only [List.forall_mem_cons]
  exact ⟨.uint32 _ _, .uint32 _ _, nofun⟩

end Resolution

namespace ImageFormat

/-- The format with the identifier that the text of its identifier names. -/
def normalized (f : ImageFormat) : ImageFormat :=
  { f with id := .ofText f.id.toText }

/-- The fields that a format is written with. -/
def record (f : ImageFormat) : Datum.Record :=
  [("id", f.id.toDatum), ("description", .text f.description)] ++
    (f.quality.map fun r => ("quality", r.toDatum)).toList ++
    (f.resolution.map fun r => ("resolution", r.toDatum)).toList

theorem record?_toDatum (f : ImageFormat) : f.toDatum.record? fieldNames = some f.record := by
  refine Datum.record?_of_sublist ?_ (by decide)
  simp only [List.map_append]
  exact ((List.Sublist.refl _).append (sublist_optional "quality" _ _)).append
    (sublist_optional "resolution" _ _)

theorem ofDatum?_toDatum (f : ImageFormat) : ofDatum? f.toDatum = some f.normalized := by
  have hid : f.record.required? "id" Ident.ofDatum? = some (.ofText f.id.toText) :=
    Ident.ofDatum?_toDatum f.id
  have hdescription : f.record.required? "description" Datum.text? = some f.description := rfl
  have hquality : f.record.optional? "quality" QualityRange.ofDatum? = some f.quality := by
    refine optional?_eq (f := QualityRange.toDatum) ?_ fun r _ =>
      ⟨Datum.noConfusion, QualityRange.ofDatum?_toDatum r⟩
    simp [record, List.lookup_append, lookup_optional, lookup_optional_of_ne, List.lookup_cons]
  have hresolution : f.record.optional? "resolution" Resolution.ofDatum? = some f.resolution := by
    refine optional?_eq (f := Resolution.toDatum) ?_ fun r _ =>
      ⟨Datum.noConfusion, Resolution.ofDatum?_toDatum r⟩
    simp [record, List.lookup_append, lookup_optional, lookup_optional_of_ne, List.lookup_cons]
  unfold ofDatum?
  rw [record?_toDatum]
  simp only [Option.bind_eq_bind, Option.bind_some, Option.pure_def, hid, hdescription, hquality,
    hresolution]
  rfl

theorem fits_toDatum (room : Nat) (f : ImageFormat) : Fits (room + 2) f.toDatum := by
  refine .table ?_
  simp only [List.forall_mem_append, forall_mem_optional, List.forall_mem_cons]
  exact ⟨⟨⟨f.id.fits_toDatum _, .text _ _, nofun⟩, fun r _ => r.fits_toDatum room⟩,
    fun r _ => r.fits_toDatum room⟩

theorem normalized_eq_iff {f : ImageFormat} : f.normalized = f ↔ f.id.IsCanonical := by
  cases f
  simp [normalized, Ident.IsCanonical]

end ImageFormat

namespace Camera

/-- All identifiers of the camera are canonical. -/
structure HasCanonicalIdents (c : Camera) : Prop where
  index : c.index.IsCanonical
  active : c.activeFormat.IsCanonical
  formats : ∀ f ∈ c.formats, f.id.IsCanonical

/-- The camera with the identifiers that the texts of its identifiers name, and with a rate. -/
def normalized (c : Camera) (frameRate : Binary64) : Camera :=
  { c with
    index := .ofText c.index.toText
    activeFormat := .ofText c.activeFormat.toText
    formats := c.formats.map ImageFormat.normalized
    frameRate }

/-- The fields that a camera is written with, given the value for its rate. -/
def record (c : Camera) (rate : Datum) : Datum.Record :=
  [("index", c.index.toDatum)] ++
    (c.name.map fun s => ("name", Datum.text s)).toList ++
    [("src", .text c.src), ("currentFrameRate", rate),
      ("currentImageFormat", c.activeFormat.toDatum)] ++
    (c.description.map fun s => ("currentImageFormatDescription", Datum.text s)).toList ++
    (c.quality.map fun n => ("currentQuality", Datum.integer n.toNat)).toList ++
    [("currentResolution", c.resolution.toDatum),
      ("imageFormats", .list (c.formats.map ImageFormat.toDatum))]

theorem toDatum_eq (c : Camera) : c.toDatum = .ofFields (c.record (.real c.frameRate)) := rfl

theorem record?_record (c : Camera) (rate : Datum) :
    (Datum.ofFields (c.record rate)).record? fieldNames = some (c.record rate) := by
  refine Datum.record?_of_sublist ?_ (by decide)
  simp only [record, List.map_append]
  exact (((((List.Sublist.refl _).append (sublist_optional "name" _ _)).append
    (List.Sublist.refl _)).append (sublist_optional "currentImageFormatDescription" _ _)).append
      (sublist_optional "currentQuality" _ _)).append (List.Sublist.refl _)

theorem lookup_record (c : Camera) (rate : Datum) :
    (c.record rate).lookup "name" = c.name.map .text ∧
      (c.record rate).lookup "currentImageFormatDescription" = c.description.map .text ∧
      (c.record rate).lookup "currentQuality" = c.quality.map (fun n => .integer n.toNat) ∧
      (c.record rate).lookup "src" = some (.text c.src) ∧
      (c.record rate).lookup "currentFrameRate" = some rate ∧
      (c.record rate).lookup "currentImageFormat" = some c.activeFormat.toDatum ∧
      (c.record rate).lookup "currentResolution" = some c.resolution.toDatum ∧
      (c.record rate).lookup "imageFormats" =
        some (.list (c.formats.map ImageFormat.toDatum)) := by
  simp [record, List.lookup_append, lookup_optional, lookup_optional_of_ne, List.lookup_cons]

/-- A camera is read from its fields with its identifiers normalized, and with the rate that is
read. -/
theorem ofDatum?_record (c : Camera) (rate : Datum) :
    ofDatum? (.ofFields (c.record rate)) = rate.number?.map c.normalized := by
  obtain ⟨lname, ldescription, lquality, lsrc, lrate, lactive, lresolution, lformats⟩ :=
    c.lookup_record rate
  have hindex : (c.record rate).required? "index" Ident.ofDatum? =
      some (.ofText c.index.toText) :=
    Ident.ofDatum?_toDatum c.index
  have hname : (c.record rate).optional? "name" Datum.text? = some c.name :=
    optional?_eq lname fun s _ => ⟨Datum.noConfusion, rfl⟩
  have hsrc : (c.record rate).withDefault? "src" "" Datum.text? = some c.src := by
    simp only [withDefault?, lsrc, Datum.text?]
  have hrate : (c.record rate).required? "currentFrameRate" Datum.number? = rate.number? := by
    rw [required?, lrate, Option.bind_some]
  have hactive : (c.record rate).required? "currentImageFormat" Ident.ofDatum? =
      some (.ofText c.activeFormat.toText) := by
    rw [required?, lactive, Option.bind_some, Ident.ofDatum?_toDatum]
  have hdescription : (c.record rate).optional? "currentImageFormatDescription" Datum.text? =
      some c.description :=
    optional?_eq ldescription fun s _ => ⟨Datum.noConfusion, rfl⟩
  have hquality : (c.record rate).optional? "currentQuality" Datum.uint32? = some c.quality :=
    optional?_eq lquality fun n _ => ⟨Datum.noConfusion, Datum.uint32?_toNat n⟩
  have hresolution : (c.record rate).required? "currentResolution" Resolution.ofDatum? =
      some c.resolution := by
    rw [required?, lresolution, Option.bind_some, Resolution.ofDatum?_toDatum]
  have hformats : (c.record rate).required? "imageFormats"
      (Datum.listOf? ImageFormat.ofDatum?) = some (c.formats.map ImageFormat.normalized) := by
    rw [required?, lformats, Option.bind_some, Datum.listOf?_map_iff]
    exact fun f _ => f.ofDatum?_toDatum
  unfold ofDatum?
  rw [record?_record]
  simp only [Option.bind_eq_bind, Option.bind_some, Option.pure_def, hindex, hname, hsrc, hrate,
    hactive, hdescription, hquality, hresolution, hformats]
  cases rate.number? <;> rfl

theorem normalized_eq_iff {c : Camera} {x : Binary64} :
    c.normalized x = c ↔ c.HasCanonicalIdents ∧ x = c.frameRate := by
  have hformats : c.formats.map ImageFormat.normalized = c.formats ↔
      ∀ f ∈ c.formats, f.id.IsCanonical := by
    rw [← List.map_id c.formats, List.map_map, List.map_inj_left]
    simp [ImageFormat.normalized_eq_iff]
  constructor
  · intro h
    exact ⟨⟨congrArg index h, congrArg activeFormat h, hformats.1 (congrArg formats h)⟩,
      congrArg frameRate h⟩
  · rintro ⟨⟨hindex, hactive, hids⟩, rfl⟩
    rw [normalized, hindex, hactive, hformats.2 hids]

theorem ofDatum?_record_eq_iff {c : Camera} {rate : Datum} :
    ofDatum? (.ofFields (c.record rate)) = some c ↔
      c.HasCanonicalIdents ∧ rate.number? = some c.frameRate := by
  rw [ofDatum?_record]
  rcases rate.number? with _ | x
  · simp
  · rw [Option.map_some, Option.some.injEq, normalized_eq_iff, Option.some.injEq]

/-! ## What is written for a camera -/

variable {c : Camera} {rate : Datum}

theorem forall_mem_record {P : Datum → Prop} : (∀ f ∈ c.record rate, P f.2) ↔
    P c.index.toDatum ∧ (∀ s, c.name = some s → P (.text s)) ∧ P (.text c.src) ∧ P rate ∧
      P c.activeFormat.toDatum ∧ (∀ s, c.description = some s → P (.text s)) ∧
      (∀ n, c.quality = some n → P (.integer n.toNat)) ∧ P c.resolution.toDatum ∧
      P (.list (c.formats.map ImageFormat.toDatum)) := by
  simp only [record, List.forall_mem_append, forall_mem_optional, List.forall_mem_cons,
    List.not_mem_nil, IsEmpty.forall_iff, implies_true, and_true, and_assoc]

theorem fits_formats (room : Nat) (c : Camera) :
    Fits (room + 3) (.list (c.formats.map ImageFormat.toDatum)) :=
  .list (List.forall_mem_map.2 fun f _ => f.fits_toDatum room)

theorem fits_record (room : Nat) (h : Fits (room + 3) rate) :
    Fits (room + 4) (.ofFields (c.record rate)) := by
  refine .table (forall_mem_record.2 ⟨c.index.fits_toDatum _, fun s _ => .text _ s, .text _ _, h,
    c.activeFormat.fits_toDatum _, fun s _ => .text _ s, fun n _ => .uint32 _ n,
    c.resolution.fits_toDatum _, c.fits_formats room⟩)

theorem writable_toDatum (c : Camera) : Writable c.toDatum := by
  have hfields : ∀ f ∈ c.record (.real c.frameRate), Writable f.2 :=
    forall_mem_record.2 ⟨c.index.written_toDatum.writable, fun s _ => .text s, .text _, .real _,
      c.activeFormat.written_toDatum.writable, fun s _ => .text s,
      fun n _ => (Fits.uint32 0 n).written.writable,
      (c.resolution.fits_toDatum 0).written.writable, (c.fits_formats 0).written.writable⟩
  exact .table hfields

/-- Of a camera only the rate may be read as something else than what was written. -/
theorem reread_toDatum (c : Camera) :
    reread c.toDatum = .ofFields (c.record (reread (.real c.frameRate))) := by
  have htext : ∀ s, reread (.text s) = .text s := fun s => (Written.text s).reread_eq
  have hident : ∀ i : Ident, reread i.toDatum = i.toDatum := fun i => i.written_toDatum.reread_eq
  have hword : ∀ n : UInt32, reread (.integer n.toNat) = .integer n.toNat := fun n =>
    (Fits.uint32 0 n).written.reread_eq
  have hresolution := (c.resolution.fits_toDatum 0).written.reread_eq
  have hformats := (c.fits_formats 0).written.reread_eq
  rw [toDatum_eq, Json.reread_ofFields]
  simp only [record, List.map_append, map_optional, List.map_cons, List.map_nil, htext, hident,
    hword, hresolution, hformats]

end Camera

end CameraFleet
