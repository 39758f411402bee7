import Mathlib.Data.List.Nodup
import CameraFleet.DemoFleet
import CameraFleet.Proofs.Registry.Entries
import CameraFleet.Proofs.Registry.Patching

/-!
# Runs of patches

A registry holds its seeds when there is one settled camera for each of them, with the same
device, under its own identifier, in ascending order (`Registry.Holds`). Seeding establishes that
(`holds_ofCameras`), and every patch keeps it, applied or refused (`Holds.apply`), so it holds
after every run (`holds_run`). In such a registry the empty patch changes nothing.
-/

namespace CameraFleet.Registry

/-! ## What a call does to the cameras -/

theorem get?_apply_of_ne {r : Registry} {index k : Ident} {p : Patch} (hk : k ≠ index) :
    (r.apply index p).2.get? k = r.get? k := by
  rcases apply_cases r index p with ⟨e, h⟩ | ⟨c, d, -, -, h⟩ <;> rw [h]
  simp only [get?_replace, hk, if_false]

/-- A call on a camera that is applied answers with the camera that is stored from then on. -/
theorem apply_ok {r t : Registry} {k : Ident} {p : Patch} {d : Camera}
    (h : r.apply k p = (.ok d, t)) :
    ∃ c, r.get? k = some c ∧ patched r.options k c p = .ok d ∧ t.get? k = some d := by
  rcases apply_cases r k p with ⟨e, he⟩ | ⟨c, d', hc, hd, happly⟩
  · simp [he] at h
  · simp only [happly, Prod.mk.injEq, Except.ok.injEq] at h
    obtain ⟨rfl, rfl⟩ := h
    refine ⟨c, hc, hd, ?_⟩
    rw [get?_replace, if_pos rfl, hc, Option.map_some]

/-! ## Runs -/

/-- The registry after patches, one after the other. -/
def run (r : Registry) : List (Ident × Patch) → Registry
  | [] => r
  | (index, p) :: rest => (r.apply index p).2.run rest

theorem run_cons (r : Registry) (index : Ident) (p : Patch) (rest : List (Ident × Patch)) :
    r.run ((index, p) :: rest) = (r.apply index p).2.run rest := rfl

theorem run_append : ∀ (r : Registry) (before after : List (Ident × Patch)),
    r.run (before ++ after) = (r.run before).run after
  | _, [], _ => rfl
  | r, (index, p) :: before, after => run_append (r.apply index p).2 before after

@[simp] theorem run_options : ∀ (r : Registry) (calls : List (Ident × Patch)),
    (r.run calls).options = r.options
  | _, [] => rfl
  | r, (index, p) :: rest => by rw [run_cons, run_options, apply_options]

/-! ## Seeding -/

/-- The registry has one settled camera for each of the seeds, and no other. -/
structure Holds (r : Registry) (seeds : List Camera) : Prop where
  ascending : Ascending r.entries
  stored : ∀ k c, (k, c) ∈ r.entries →
    c.index = k ∧ c.IsSettled r.options.preview ∧ ∃ s ∈ seeds, c.SameDevice s
  keys : ∀ k, k ∈ r.entries.map (·.1) ↔ k ∈ seeds.map (·.index)
  distinct : (seeds.map (·.index)).Nodup

variable {r : Registry} {seeds : List Camera} {c : Camera}

/-- The registry with one more camera. -/
def add (r : Registry) (c : Camera) : Registry :=
  { r with entries := insertSorted c.index (c.refreshed r.options.preview) r.entries }

theorem mem_entries_add {e : Ident × Camera} : e ∈ (r.add c).entries ↔
    e = (c.index, c.refreshed r.options.preview) ∨ e ∈ r.entries :=
  mem_insertSorted

theorem mem_map_fst_add {k : Ident} :
    k ∈ (r.add c).entries.map (·.1) ↔ k = c.index ∨ k ∈ r.entries.map (·.1) := by
  simp only [List.mem_map, mem_entries_add, or_and_right, exists_or, exists_eq_left, eq_comm]

theorem seed_cons (r : Registry) (c : Camera) (cs : List Camera) : r.seed (c :: cs) =
    match (c.refreshed r.options.preview).flaw? with
    | some flaw => .error (.invalidSeed flaw.toDefect)
    | none =>
      if r.contains c.index then .error (.duplicateIndex c.index) else (r.add c).seed cs := by
  rw [seed]
  simp only [(Camera.sameDevice_refreshed r.options.preview c).index, contains, get?, add]
  rfl

theorem Holds.add (h : r.Holds seeds) (hc : (c.refreshed r.options.preview).flaw? = none)
    (hnew : c.index ∉ r.entries.map (·.1)) : (r.add c).Holds (seeds ++ [c]) := by
  have hdev := Camera.sameDevice_refreshed r.options.preview c
  have hsettled : (c.refreshed r.options.preview).IsSettled r.options.preview := by
    obtain ⟨hnd, hq, f, hf, -⟩ := (Camera.flaw?_eq_none_iff _).1 hc
    rw [hdev.formats] at hnd hq
    rw [Camera.active?_refreshed] at hf
    exact Camera.isSettled_refreshed hnd hq hf
  refine ⟨ascending_insertSorted h.ascending fun d hd => hnew (List.mem_map_of_mem hd), ?_, ?_, ?_⟩
  · intro k d hd
    rcases mem_entries_add.1 hd with hd | hd
    · obtain ⟨rfl, rfl⟩ := Prod.mk.inj hd
      exact ⟨hdev.index, hsettled, c, by simp, hdev⟩
    · obtain ⟨hk, hs, s, hm, hsd⟩ := h.stored k d hd
      exact ⟨hk, hs, s, List.mem_append_left _ hm, hsd⟩
  · intro k
    rw [mem_map_fst_add, h.keys, List.map_append, List.mem_append, List.map_singleton,
      List.mem_singleton, or_comm]
  · rw [List.map_append, List.map_singleton, List.nodup_append]
    refine ⟨h.distinct, by simp, fun i hi j hj hij => ?_⟩
    rw [List.mem_singleton] at hj
    exact hnew ((h.keys _).2 (hj ▸ hij ▸ hi))

theorem Holds.seed : ∀ {cs : List Camera} {r r' : Registry} {seeds : List Camera},
    r.Holds seeds → r.seed cs = .ok r' → r'.Holds (seeds ++ cs) ∧ r'.options = r.options
  | [], r, r', seeds, h, hr => by
    rw [Registry.seed, Except.ok.injEq] at hr
    rw [List.append_nil, ← hr]
    exact ⟨h, rfl⟩
  | c :: cs, r, r', seeds, h, hr => by
    rw [seed_cons] at hr
    split at hr
    · simp at hr
    · rename_i hc
      split_ifs at hr with hdup
      obtain ⟨hh, ho⟩ := (h.add hc (mt contains_iff.2 hdup)).seed hr
      rw [List.append_assoc, List.singleton_append] at hh
      exact ⟨hh, ho⟩

theorem holds_ofCameras {options : Options} (h : ofCameras seeds options = .ok r) :
    r.Holds seeds ∧ r.options = options := by
  have hempty : Holds ⟨[], options⟩ [] :=
    ⟨List.Pairwise.nil, fun k c hc => by simp at hc, fun k => Iff.rfl, List.nodup_nil⟩
  exact hempty.seed h

theorem Holds.get? (h : r.Holds seeds) {k : Ident} {c : Camera} :
    r.get? k = some c ↔ (k, c) ∈ r.entries :=
  lookup_eq_some_iff_mem h.ascending

theorem Holds.get?_of_mem {c : Camera} (h : r.Holds seeds) (hc : c ∈ r.toList) :
    r.get? c.index = some c ∧ c.IsSettled r.options.preview := by
  obtain ⟨⟨k, c⟩, hmem, rfl⟩ := List.mem_map.1 hc
  obtain ⟨rfl, hsettled, -⟩ := h.stored k c hmem
  exact ⟨h.get?.2 hmem, hsettled⟩

theorem Holds.mem_of_get? {i : Ident} {c : Camera} (h : r.Holds seeds) (hc : r.get? i = some c) :
    c ∈ r.toList ∧ c.index = i :=
  ⟨List.mem_map.2 ⟨_, h.get?.1 hc, rfl⟩, (h.stored i c (h.get?.1 hc)).1⟩

theorem Holds.get?_eq_none_iff {i : Ident} (h : r.Holds seeds) :
    r.get? i = none ↔ i ∉ r.toList.map (·.index) := by
  constructor
  · intro hnone hmem
    obtain ⟨c, hc, rfl⟩ := List.mem_map.1 hmem
    simp [(h.get?_of_mem hc).1] at hnone
  · intro hno
    rcases hget : r.get? i with _ | c
    · rfl
    · obtain ⟨hc, rfl⟩ := h.mem_of_get? hget
      exact absurd (List.mem_map_of_mem hc) hno

theorem Holds.exists_seed (h : r.Holds seeds) {c : Camera} (hc : c ∈ r.toList) :
    c.flaw? = none ∧ ∃ d ∈ seeds, c.SameDevice d := by
  obtain ⟨⟨k, c⟩, hmem, rfl⟩ := List.mem_map.1 hc
  obtain ⟨-, hsettled, hseed⟩ := h.stored k c hmem
  exact ⟨hsettled.sound, hseed⟩

theorem Holds.exists_stored (h : r.Holds seeds) {d : Camera} (hd : d ∈ seeds) :
    ∃ c ∈ r.toList, c.SameDevice d := by
  obtain ⟨⟨k, c⟩, hmem, hk⟩ := List.mem_map.1 ((h.keys d.index).2 (List.mem_map_of_mem hd))
  obtain ⟨hindex, -, s, hs, hdev⟩ := h.stored k c hmem
  have hsame : s.index = d.index := by rw [← hdev.index, hindex, ← hk]
  obtain rfl := List.inj_on_of_nodup_map h.distinct hs hd hsame
  exact ⟨c, List.mem_map.2 ⟨_, hmem, rfl⟩, hdev⟩

/-- A patch leaves a registry that still holds its seeds, whether it is applied or refused. -/
theorem Holds.apply (h : r.Holds seeds) (index : Ident) (p : Patch) :
    (r.apply index p).2.Holds seeds := by
  rcases apply_cases r index p with ⟨e, hr⟩ | ⟨c, d, hc, hd, hr⟩ <;> rw [hr]
  · exact h
  · obtain ⟨hi, hs, s, hm, hsd⟩ := h.stored index c (h.get?.1 hc)
    have hdev := sameDevice_patched hd
    refine ⟨ascending_replace h.ascending index d, fun k e he => ?_, fun k => ?_, h.distinct⟩
    · rcases mem_replace he with ⟨rfl, rfl⟩ | ⟨-, he⟩
      · exact ⟨hdev.index.trans hi, isSettled_patched hs hd, s, hm, hdev.trans hsd⟩
      · exact h.stored k e he
    · rw [map_fst_replace, h.keys]

theorem Holds.run : ∀ {r : Registry} (_ : r.Holds seeds) (calls : List (Ident × Patch)),
    (r.run calls).Holds seeds
  | _, h, [] => h
  | _, h, (index, p) :: rest => (h.apply index p).run rest

/-- The empty patch to a stored camera answers with it and changes nothing. -/
theorem Holds.apply_empty (h : r.Holds seeds) {k : Ident} {c : Camera} (hc : (k, c) ∈ r.entries) :
    r.apply k .empty = (.ok c, r) := by
  have hget := h.get?.2 hc
  rw [apply_of_ok hget (patched_empty (h.stored k c hc).2.1), replace_self h.ascending hget]

theorem Holds.pairwise_toList (h : r.Holds seeds) :
    r.toList.Pairwise fun c d => compare c.index d.index = .lt := by
  refine List.pairwise_map.2 (h.ascending.imp_of_mem fun {a b} ha hb hab => ?_)
  rw [(h.stored a.1 a.2 ha).1, (h.stored b.1 b.2 hb).1]
  exact hab

/-- After every run of patches each camera is stored settled under its own identifier, with the
device of its seed; there is one for each seed, they are listed in ascending order, and the empty
patch changes none of them. -/
theorem holds_run {options : Options} (h : ofCameras seeds options = .ok r)
    (calls : List (Ident × Patch)) :
    (∀ k c, (k, c) ∈ (r.run calls).entries →
      c.index = k ∧ c.IsSettled options.preview ∧ ∃ s ∈ seeds, c.SameDevice s) ∧
    (seeds.map (·.index)).Nodup ∧
    (∀ k, (r.run calls).contains k ↔ k ∈ seeds.map (·.index)) ∧
    ((r.run calls).toList.Pairwise fun c d => compare c.index d.index = .lt) ∧
    ∀ k c, (r.run calls).get? k = some c → (r.run calls).apply k .empty = (.ok c, r.run calls) := by
  obtain ⟨hr, ho⟩ := holds_ofCameras h
  have hrun := hr.run calls
  refine ⟨fun k c hc => ?_, hr.distinct, fun k => ?_, hrun.pairwise_toList, fun k c hc => ?_⟩
  · have hstored := hrun.stored k c hc
    rwa [run_options, ho] at hstored
  · rw [contains_iff, hrun.keys]
  · exact hrun.apply_empty (hrun.get?.1 hc)

/-- A run over the demo fleet with a switch of format, a quality that is refused, an unknown
format, an unknown camera and an empty patch. -/
theorem holds_run_demoFleet : ∃ r, ofCameras DemoFleet.cameras ⟨default, .strict⟩ = .ok r ∧
    ∀ k c, (k, c) ∈ (r.run [(.number 1, ⟨some (.number 3), some 70⟩),
        (.number 0, ⟨some (.number 2), some 50⟩), (.number 2, ⟨some (.name "raw"), none⟩),
        (.name "rear", ⟨none, some 90⟩), (.number 1, .empty)]).entries →
      c.index = k ∧ c.IsSettled default ∧ ∃ s ∈ DemoFleet.cameras, c.SameDevice s := by
  have hok : (ofCameras DemoFleet.cameras ⟨default, .strict⟩).isOk := by decide +kernel
  rcases h : ofCameras DemoFleet.cameras ⟨default, .strict⟩ with e | r
  · rw [h] at hok
    exact absurd hok Bool.false_ne_true
  · exact ⟨r, rfl, (holds_run h _).1⟩

end CameraFleet.Registry
