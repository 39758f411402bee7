import CameraFleet.Client
import CameraFleet.Settings.Loading
import CameraFleet.Proofs.Camera.Document
import CameraFleet.Proofs.Json.Places
import CameraFleet.Proofs.Wire

/-!
# Listings that are read back

A listing is read back just when each of its cameras is portable (`Client.readListing_iff`): its
identifiers are canonical, and its rate is read back from its own text. The same documents are
read as device lists, in either form.
-/

namespace CameraFleet

open Json (Fits Writable reread)

namespace Json

theorem number?_reread (x : Binary64) :
    (reread (.real x)).number? = (number? x.document).bind Datum.number? := by
  rw [reread]
  cases number? x.document <;> rfl

theorem number?_reread_of_not_isFinite {x : Binary64} (hx : ¬ x.isFinite) :
    (reread (.real x)).number? = none := by
  rw [number?_reread, document_of_not_isFinite hx]
  rfl

end Json

namespace Camera

/-- All that a listing says of the camera is read back as it is. -/
structure IsPortable (c : Camera) : Prop where
  idents : c.HasCanonicalIdents
  rate : Json.ReadsBack c.frameRate

variable {c : Camera}

theorem ofDatum?_reread_iff : ofDatum? (reread c.toDatum) = some c ↔ c.IsPortable := by
  rw [reread_toDatum, ofDatum?_record_eq_iff, Json.number?_reread]
  exact ⟨fun h => ⟨h.1, h.2⟩, fun h => ⟨h.idents, h.rate⟩⟩

theorem ofDatum?_reread_of_not_isFinite (h : ¬ c.frameRate.isFinite) :
    ofDatum? (reread c.toDatum) = none := by
  rw [reread_toDatum, ofDatum?_record, Json.number?_reread_of_not_isFinite h, Option.map_none]

theorem IsPortable.fits_toDatum (room : Nat) (h : c.IsPortable) : Fits (room + 4) c.toDatum :=
  c.fits_record room (.real _ (Json.readsBack_iff.1 h.rate))

theorem IsPortable.ofDatum?_toDatum (h : c.IsPortable) : ofDatum? c.toDatum = some c := by
  have hread := ofDatum?_reread_iff.2 h
  rwa [(h.fits_toDatum 0).written.reread_eq] at hread

end Camera

namespace Listing

variable {cs : List Camera}

theorem ofDatum?_ofFields (d : Datum) : ofDatum? (.ofFields [("cameras", d)]) =
    (d.listOf? Camera.ofDatum?).map Listing.mk := by
  have hrecord : (Datum.ofFields [("cameras", d)]).record? fieldNames = some [("cameras", d)] :=
    Datum.record?_of_sublist (List.Sublist.refl _) (by decide)
  unfold ofDatum?
  rw [hrecord]
  cases hd : d.listOf? Camera.ofDatum? with
  | none => simp [Datum.Record.required?, hd]
  | some found => simp [Datum.Record.required?, hd]

theorem reread_toDatum (cs : List Camera) : reread (toDatum ⟨cs⟩) =
    .ofFields [("cameras", .list (cs.map fun c => reread c.toDatum))] := by
  rw [toDatum, Json.reread_ofFields, List.map_singleton, Json.reread_list, List.map_map]
  rfl

theorem writable_toDatum (cs : List Camera) : Writable (toDatum ⟨cs⟩) := by
  have hlist : Writable (.list (cs.map Camera.toDatum)) :=
    .list (List.forall_mem_map.2 fun c _ => c.writable_toDatum)
  exact .table (List.forall_mem_singleton.2 hlist)

theorem ofDatum?_reread_iff :
    ofDatum? (reread (toDatum ⟨cs⟩)) = some ⟨cs⟩ ↔ ∀ c ∈ cs, c.IsPortable := by
  have hlist : (Datum.list (cs.map fun c => reread c.toDatum)).listOf? Camera.ofDatum? =
      some (cs.map id) ↔ ∀ c ∈ cs, Camera.ofDatum? (reread c.toDatum) = some (id c) :=
    Datum.listOf?_map_iff
  rw [List.map_id] at hlist
  rw [reread_toDatum, ofDatum?_ofFields]
  simp only [Option.map_eq_some_iff, Listing.mk.injEq, exists_eq_right, hlist, id,
    Camera.ofDatum?_reread_iff]

/-- One rate that a document has no number for makes the whole listing unreadable. -/
theorem ofDatum?_reread_of_not_isFinite {c : Camera} (hc : c ∈ cs)
    (h : ¬ c.frameRate.isFinite) : ofDatum? (reread (toDatum ⟨cs⟩)) = none := by
  rw [reread_toDatum, ofDatum?_ofFields,
    Datum.listOf?_map_eq_none hc (Camera.ofDatum?_reread_of_not_isFinite h), Option.map_none]

end Listing

/-! ## Listings over links -/

namespace Client

variable {a : Http.Response} {cs : List Camera}

theorem readListing_eq (hstatus : a.status = 200)
    (hbody : a.body = (Json.render (Listing.toDatum ⟨cs⟩)).toUTF8) :
    readListing a = match Listing.ofDatum? (reread (Listing.toDatum ⟨cs⟩)) with
      | some l => .ok l.cameras
      | none => .error .undecodable := by
  unfold readListing readDocument isSuccess
  simp only [hstatus, hbody, Json.parseBytes?_render_eq (Listing.writable_toDatum cs),
    Option.bind_some]
  rcases Listing.ofDatum? (reread (Listing.toDatum ⟨cs⟩)) with _ | l <;> rfl

/-- An answer with a listing is read back just when all its cameras are portable. -/
theorem readListing_iff (hstatus : a.status = 200)
    (hbody : a.body = (Json.render (Listing.toDatum ⟨cs⟩)).toUTF8) :
    readListing a = .ok cs ↔ ∀ c ∈ cs, c.IsPortable := by
  rw [readListing_eq hstatus hbody, ← Listing.ofDatum?_reread_iff]
  rcases Listing.ofDatum? (reread (Listing.toDatum ⟨cs⟩)) with _ | ⟨⟨l⟩⟩ <;> simp

theorem readListing_of_not_isFinite (hstatus : a.status = 200)
    (hbody : a.body = (Json.render (Listing.toDatum ⟨cs⟩)).toUTF8) {c : Camera} (hc : c ∈ cs)
    (h : ¬ c.frameRate.isFinite) : readListing a = .error .undecodable := by
  rw [readListing_eq hstatus hbody, Listing.ofDatum?_reread_of_not_isFinite hc h]

end Client

/-! ## Device lists -/

namespace Settings.DeviceList

variable {cs : List Camera}

/-- A device list of portable cameras is read back from the form of the listing. -/
theorem parse?_listing (h : ∀ c ∈ cs, c.IsPortable) :
    parse? (Json.render (Listing.toDatum ⟨cs⟩)) = some cs := by
  have hlist : Fits 126 (.list (cs.map Camera.toDatum)) :=
    .list (List.forall_mem_map.2 fun c hc => (h c hc).fits_toDatum 121)
  have hfits : Fits maxNesting (Listing.toDatum ⟨cs⟩) :=
    .table (List.forall_mem_singleton.2 hlist)
  have hread := Listing.ofDatum?_reread_iff.2 h
  rw [hfits.written.reread_eq] at hread
  rw [parse?, Json.parse?_render hfits.written, Option.bind_some]
  unfold ofDatum?
  rw [if_pos hfits.readable]
  exact congrArg (Option.map Listing.cameras) hread

/-- A device list of portable cameras is read back from the form of a bare list. -/
theorem parse?_list (h : ∀ c ∈ cs, c.IsPortable) :
    parse? (Json.render (.list (cs.map Camera.toDatum))) = some cs := by
  have hfits : Fits maxNesting (.list (cs.map Camera.toDatum)) :=
    .list (List.forall_mem_map.2 fun c hc => (h c hc).fits_toDatum 122)
  have hread : (Datum.list (cs.map Camera.toDatum)).listOf? Camera.ofDatum? =
      some (cs.map id) :=
    Datum.listOf?_map_iff.2 fun c hc => (h c hc).ofDatum?_toDatum
  rw [parse?, Json.parse?_render hfits.written, Option.bind_some]
  unfold ofDatum?
  rw [if_pos hfits.readable, hread, List.map_id]

end Settings.DeviceList

/-! ## Requests -/

theorem SetRequest.parseBytes?_render {q : SetRequest} (hindex : q.index.IsCanonical)
    (hformat : ∀ id, q.format = some id → id.IsCanonical)
    (hquality : ∀ x, q.quality = some (.other x) → Json.ReadsBack x) :
    (Json.parseBytes? (Json.render q.toDatum).toUTF8).bind ofDatum? = some q := by
  have hwritten : Json.Written q.toDatum := by
    refine written_toDatum fun v hv => ?_
    cases v with
    | whole n => exact WireQuality.written_whole n
    | other x => exact .real (Json.readsBack_iff.1 (hquality x hv))
  rw [Json.parseBytes?_toUTF8_render hwritten, Option.bind_some]
  exact ofDatum?_toDatum hindex hformat

/-- What goes over the wire is read back: a list of cameras from the answer of the service, and
from a device list in either form; a request to change a configuration from its body. The
identifiers have to be canonical, and the doubles finite and such that each is read back from its
own text. -/
theorem wire_readBack {cs : List Camera} {q : SetRequest}
    (hcs : ∀ c ∈ cs, c.frameRate.isFinite ∧ c.HasCanonicalIdents)
    (hindex : q.index.IsCanonical) (hformat : ∀ id, q.format = some id → id.IsCanonical)
    (hquality : ∀ x, q.quality = some (.other x) → x.isFinite)
    (htext : ∀ x, x.isFinite → x ∈ cs.map Camera.frameRate ∨ q.quality = some (.other x) →
      Json.ReadsBack x) :
    (∀ {σ : Type} (client : Client) (link : Link σ) (s : σ) (request : Http.Request)
      (answer : Http.Response), client.listingRequest? = some request →
      (link s request).1 = some answer → answer.status = 200 →
      answer.body = (Json.render (Listing.toDatum ⟨cs⟩)).toUTF8 →
      (client.fetchCameras link s).1 = .ok cs) ∧
    (∀ (disk : Settings.Disk) (path : String),
      disk.file? path = some (Json.render (Listing.toDatum ⟨cs⟩)).toUTF8 ∨
        disk.file? path = some (Json.render (.list (cs.map Camera.toDatum))).toUTF8 →
      Settings.readCameras disk path = .ok cs) ∧
    (Json.parseBytes? (Json.render q.toDatum).toUTF8).bind SetRequest.ofDatum? = some q := by
  have hportable : ∀ c ∈ cs, c.IsPortable := fun c hc =>
    ⟨(hcs c hc).2, htext _ (hcs c hc).1 (Or.inl (List.mem_map_of_mem hc))⟩
  refine ⟨fun client link s request answer hrequest hlink hstatus hbody => ?_,
    fun disk path hfile => ?_, ?_⟩
  · rw [← (Client.readListing_iff hstatus hbody).2 hportable]
    unfold Client.fetchCameras Client.exchange
    simp only [hrequest]
    split
    · simp_all
    · simp_all
  · have hread : ∀ s, disk.file? path = some s.toUTF8 →
        Settings.DeviceList.parse? s = some cs → Settings.readCameras disk path = .ok cs := by
      intro s hs hparse
      have htext : disk.text? path = some s := by
        rw [Settings.Disk.text?, hs, Option.bind_some, Utf8.fromUTF8?_toUTF8]
      simp only [Settings.readCameras, htext, hparse]
    rcases hfile with hfile | hfile
    · exact hread _ hfile (Settings.DeviceList.parse?_listing hportable)
    · exact hread _ hfile (Settings.DeviceList.parse?_list hportable)
  · exact SetRequest.parseBytes?_render hindex hformat fun x hx =>
      htext x (hquality x hx) (Or.inr hx)

/-- A camera with all the optional fields, one with none of them, and a request for a quality
between two whole numbers. -/
theorem wire_readBack_two_cameras :
    let cs : List Camera := [
      ⟨.name "north gate", some "North Gate", "http://cam/0", .ofDecimal false 2997 (-2), .number 7,
        some "RGB", some 80, ⟨640, 480⟩,
        [⟨.number 7, "RGB", some ⟨50, 100, some 5, some 85⟩, some ⟨640, 480⟩⟩,
          ⟨.name "raw", "", some ⟨0, 100, none, none⟩, none⟩]⟩,
      ⟨.number 1, none, "", .ofInt 15, .name "raw", none, none, ⟨800, 600⟩, []⟩]
    let q : SetRequest := ⟨.name "north gate", some (.name "raw"),
      some (.other (.ofDecimal false 505 (-1)))⟩
    let link : Link Unit := fun s _ => (some (.json 200 (Listing.toDatum ⟨cs⟩)), s)
    (Client.fetchCameras ⟨⟨"http://localhost:8080"⟩⟩ link ()).1 = .ok cs ∧
      (Json.parseBytes? (Json.render q.toDatum).toUTF8).bind SetRequest.ofDatum? = some q := by
  intro cs q link
  have hcs : ∀ c ∈ cs, c.frameRate.isFinite ∧ c.HasCanonicalIdents := by
    intro c hc
    simp only [cs, List.mem_cons, List.not_mem_nil, or_false] at hc
    rcases hc with rfl | rfl
    · exact ⟨by decide +kernel, by decide +kernel, by decide +kernel, by decide +kernel⟩
    · exact ⟨by decide +kernel, by decide +kernel, by decide +kernel, by decide +kernel⟩
  have hformat : ∀ id, q.format = some id → id.IsCanonical := by
    rintro id ⟨⟩
    decide
  have hquality : ∀ x, q.quality = some (.other x) → x.isFinite := by
    intro x hx
    rw [← WireQuality.other.inj (Option.some.inj hx)]
    decide +kernel
  have hrates : ∀ x ∈ cs.map Camera.frameRate, Json.ReadsBack x := by decide +kernel
  have htext : ∀ x, x.isFinite → x ∈ cs.map Camera.frameRate ∨ q.quality = some (.other x) →
      Json.ReadsBack x := by
    rintro x - (hx | hx)
    · exact hrates x hx
    · rw [← WireQuality.other.inj (Option.some.inj hx)]
      decide +kernel
  have hread := wire_readBack hcs (by decide) hformat hquality htext
  have hrequest : (Client.listingRequest? ⟨⟨"http://localhost:8080"⟩⟩).isSome := by decide +kernel
  obtain ⟨request, hrequest⟩ := Option.isSome_iff_exists.1 hrequest
  have hbody : ∀ d, (Http.Response.json 200 d).body = (Json.render d).toUTF8 := fun _ => rfl
  exact ⟨hread.1 _ link () request _ hrequest rfl rfl (hbody _), hread.2.2⟩

end CameraFleet
