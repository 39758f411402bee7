import Mathlib.Data.List.Basic
import CameraFleet.Proofs.Registry.Runs

/-!
# Cameras are configured apart from each other

A call reads its own camera alone and changes no other, so two registries that agree on a camera
keep agreeing on it when calls to other cameras come to one of them (`AlikeAt.run`). What a run
does to a camera, and what it answers to the calls on it, are therefore what these calls do alone,
and the order between calls on different cameras has no effect (`run_isolated`). No update is lost
on the way: a camera is the one that the last accepted call on it was answered with
(`get?_run_eq_last`).
-/

namespace CameraFleet.Registry

/-- What calls are answered, one after the other, each with the camera it is addressed to. -/
def answers (r : Registry) : List (Ident × Patch) → List (Ident × Except Failure Camera)
  | [] => []
  | (index, p) :: rest => (index, (r.apply index p).1) :: (r.apply index p).2.answers rest

/-- Of calls, or of answers, those that belong to camera `k`. -/
def addressedTo {α : Type} (k : Ident) (es : List (Ident × α)) : List (Ident × α) :=
  es.filter (·.1 = k)

/-- The cameras that accepted calls were answered with. -/
def accepted (es : List (Ident × Except Failure Camera)) : List Camera :=
  es.filterMap (·.2.toOption)

variable {α : Type} {k index : Ident} {r s : Registry} {p : Patch}

theorem addressedTo_cons_self (a : α) (es : List (Ident × α)) :
    addressedTo k ((k, a) :: es) = (k, a) :: addressedTo k es := by
  simp only [addressedTo, List.filter_cons, decide_true, if_true]

theorem addressedTo_cons_of_ne (h : k ≠ index) (a : α) (es : List (Ident × α)) :
    addressedTo k ((index, a) :: es) = addressedTo k es := by
  simp only [addressedTo, List.filter_cons, Ne.symm h, decide_false, Bool.false_eq_true, if_false]

/-! ## What is done to one camera -/

/-- Two registries that a call on camera `k` cannot tell apart. -/
structure AlikeAt (k : Ident) (r s : Registry) : Prop where
  options : r.options = s.options
  camera : r.get? k = s.get? k

theorem AlikeAt.apply_of_ne (h : AlikeAt k r s) (hne : k ≠ index) (p : Patch) :
    AlikeAt k (r.apply index p).2 s :=
  ⟨(apply_options r index p).trans h.options, (get?_apply_of_ne hne).trans h.camera⟩

/-- A call on the camera itself is answered alike, and leaves them alike. -/
theorem AlikeAt.apply (h : AlikeAt k r s) (p : Patch) :
    (r.apply k p).1 = (s.apply k p).1 ∧ AlikeAt k (r.apply k p).2 (s.apply k p).2 := by
  rcases hc : s.get? k with _ | c
  · rw [apply_of_unknown hc, apply_of_unknown (h.camera.trans hc)]
    exact ⟨rfl, h⟩
  have hr := h.camera.trans hc
  rcases hd : patched s.options k c p with e | d
  · rw [apply_of_error hc hd, apply_of_error hr (h.options ▸ hd)]
    exact ⟨rfl, h⟩
  · rw [apply_of_ok hc hd, apply_of_ok hr (h.options ▸ hd)]
    refine ⟨rfl, h.options, ?_⟩
    rw [get?_replace, get?_replace, h.camera]

/-- A run leaves a camera as the calls on it alone do, and answers them alike. -/
theorem AlikeAt.run : ∀ {r s : Registry} (_ : AlikeAt k r s) (calls : List (Ident × Patch)),
    AlikeAt k (r.run calls) (s.run (addressedTo k calls)) ∧
      addressedTo k (r.answers calls) = s.answers (addressedTo k calls)
  | _, _, h, [] => ⟨h, rfl⟩
  | r, s, h, (index, p) :: rest => by
    by_cases hindex : k = index
    · subst hindex
      obtain ⟨hanswer, halike⟩ := h.apply p
      obtain ⟨hrun, hanswers⟩ := halike.run rest
      rw [addressedTo_cons_self, answers, answers, addressedTo_cons_self, hanswers, hanswer]
      exact ⟨hrun, rfl⟩
    · rw [addressedTo_cons_of_ne hindex, answers, addressedTo_cons_of_ne hindex]
      exact (h.apply_of_ne hindex p).run rest

/-- A camera is the one that the last accepted call on it was answered with. -/
theorem get?_run_eq_last (k : Ident) : ∀ (calls : List (Ident × Patch)) (r : Registry),
    (r.run calls).get? k =
      (accepted (addressedTo k (r.answers calls))).getLast?.or (r.get? k)
  | [], _ => rfl
  | (index, p) :: rest, r => by
    rw [run_cons, answers, get?_run_eq_last k rest]
    by_cases hindex : k = index
    · subst hindex
      rw [addressedTo_cons_self]
      rcases apply_cases r k p with ⟨e, h⟩ | ⟨c, d, hc, -, h⟩
      · rw [h]
        rfl
      · rw [h, get?_replace, if_pos rfl, hc, Option.map_some]
        generalize addressedTo k ((r.replace k d).answers rest) = later
        change _ = (d :: accepted later).getLast?.or _
        rw [List.getLast?_cons]
        cases (accepted later).getLast? <;> rfl
    · rw [addressedTo_cons_of_ne hindex, get?_apply_of_ne hindex]

/-! ## What is done to all cameras -/

theorem map_fst_run : ∀ (calls : List (Ident × Patch)) (r : Registry),
    (r.run calls).entries.map (·.1) = r.entries.map (·.1)
  | [], _ => rfl
  | (index, p) :: rest, r => by
    rw [run_cons, map_fst_run rest]
    rcases apply_cases r index p with ⟨e, h⟩ | ⟨c, d, -, -, h⟩ <;> rw [h]
    exact map_fst_replace r index d

/-- The listing is made up from the keys and the cameras found under them. -/
theorem toList_eq_filterMap (h : Ascending r.entries) :
    r.toList = (r.entries.map (·.1)).filterMap r.get? := by
  rw [toList, List.filterMap_map, ← List.filterMap_eq_map]
  refine List.filterMap_congr fun e he => ?_
  exact ((lookup_eq_some_iff_mem h).2 he).symm

variable {seeds : List Camera} {options : Options}

/-- Whatever calls come in between, a camera ends up as the calls on it alone leave it, these are
answered alike, and it is what the last accepted one was answered with. Two runs with the same
calls on every camera, in whatever order otherwise, end in the same listing and answer each call
alike. -/
theorem run_isolated (h : ofCameras seeds options = .ok r) (calls : List (Ident × Patch)) :
    (∀ k, (r.run calls).get? k = (r.run (addressedTo k calls)).get? k ∧
      addressedTo k (r.answers calls) = r.answers (addressedTo k calls) ∧
      (r.run calls).get? k =
        (accepted (addressedTo k (r.answers calls))).getLast?.or (r.get? k)) ∧
    ∀ other, (∀ k, addressedTo k calls = addressedTo k other) →
      (r.run calls).toList = (r.run other).toList ∧
        ∀ k, addressedTo k (r.answers calls) = addressedTo k (r.answers other) := by
  have halone : ∀ calls k, (r.run calls).get? k = (r.run (addressedTo k calls)).get? k ∧
      addressedTo k (r.answers calls) = r.answers (addressedTo k calls) := fun calls k =>
    have hrun := AlikeAt.run ⟨rfl, rfl⟩ calls
    ⟨hrun.1.camera, hrun.2⟩
  refine ⟨fun k => ⟨(halone calls k).1, (halone calls k).2, get?_run_eq_last k calls r⟩, ?_⟩
  intro other hsame
  obtain ⟨hr, -⟩ := holds_ofCameras h
  have hget : (r.run calls).get? = (r.run other).get? := by
    funext k
    rw [(halone calls k).1, (halone other k).1, hsame k]
  constructor
  · rw [toList_eq_filterMap (hr.run calls).ascending, toList_eq_filterMap (hr.run other).ascending,
      map_fst_run, map_fst_run, hget]
  · intro k
    rw [(halone calls k).2, (halone other k).2, hsame k]

/-- Two orders of calls on two cameras and on an unknown one, some of them refused. -/
theorem run_isolated_demoFleet :
    ∃ r, ofCameras DemoFleet.cameras ⟨default, .strict⟩ = .ok r ∧
      (r.run [(.number 0, ⟨some (.number 2), some 90⟩), (.number 1, ⟨some (.number 3), some 64⟩),
          (.name "rear", ⟨none, some 1⟩), (.number 1, ⟨some (.number 3), some 70⟩),
          (.number 0, ⟨none, some 50⟩)]).toList =
        (r.run [(.name "rear", ⟨none, some 1⟩), (.number 1, ⟨some (.number 3), some 64⟩),
          (.number 0, ⟨some (.number 2), some 90⟩), (.number 0, ⟨none, some 50⟩),
          (.number 1, ⟨some (.number 3), some 70⟩)]).toList := by
  have hok : (ofCameras DemoFleet.cameras ⟨default, .strict⟩).isOk := by decide +kernel
  rcases h : ofCameras DemoFleet.cameras ⟨default, .strict⟩ with e | r
  · rw [h] at hok
    exact absurd hok Bool.false_ne_true
  · refine ⟨r, rfl, ((run_isolated h _).2 _ fun k => ?_).1⟩
    simp only [addressedTo, List.filter_cons, List.filter_nil]
    by_cases h0 : Ident.number 0 = k
    · subst h0
      decide
    by_cases h1 : Ident.number 1 = k
    · subst h1
      decide
    · simp only [h0, h1, decide_false, Bool.false_eq_true, if_false]

end CameraFleet.Registry
