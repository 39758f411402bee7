import CameraFleet.Proofs.Ident.Order
import CameraFleet.Registry

/-!
# The entries of a registry

Entries stay in ascending order when one is added (`ascending_insertSorted`), and in ascending
entries a camera is found under an identifier exactly when the entry is there
(`lookup_eq_some_iff_mem`). Replacing a camera keeps the keys (`map_fst_replace`) and is seen
under its own key only (`get?_replace`).
-/

namespace CameraFleet.Registry

open Std

/-- The keys come in strictly ascending order. -/
def Ascending (es : List (Ident × Camera)) : Prop :=
  es.Pairwise fun a b => compare a.1 b.1 = .lt

theorem mem_insertSorted {i : Ident} {c : Camera} {e : Ident × Camera} :
    ∀ {es : List (Ident × Camera)}, e ∈ insertSorted i c es ↔ e = (i, c) ∨ e ∈ es
  | [] => by simp [insertSorted]
  | (j, d) :: rest => by
    rw [insertSorted]
    split_ifs
    · simp only [List.mem_cons]
    · simp only [List.mem_cons, mem_insertSorted]
      tauto

theorem ascending_insertSorted {i : Ident} {c : Camera} :
    ∀ {es : List (Ident × Camera)}, Ascending es → (∀ d, (i, d) ∉ es) →
      Ascending (insertSorted i c es)
  | [], _, _ => List.pairwise_singleton _ _
  | (j, d) :: rest, h, hi => by
    obtain ⟨hj, hrest⟩ := List.pairwise_cons.1 h
    rw [insertSorted]
    split_ifs with hlt
    · refine List.pairwise_cons.2 ⟨fun e he => ?_, h⟩
      have hij : compare i j = .lt := Ordering.isLT_iff_eq_lt.1 hlt
      rcases List.mem_cons.1 he with rfl | he
      · exact hij
      · exact TransCmp.lt_trans hij (hj e he)
    · refine List.pairwise_cons.2 ⟨fun e he => ?_, ascending_insertSorted hrest fun d' hd' =>
        hi d' (List.mem_cons_of_mem _ hd')⟩
      rcases mem_insertSorted.1 he with rfl | he
      · have hne : compare i j ≠ .eq := fun heq =>
          hi d (LawfulEqCmp.eq_of_compare heq ▸ List.mem_cons_self)
        have hnlt : compare i j ≠ .lt := fun h => hlt (Ordering.isLT_iff_eq_lt.2 h)
        refine OrientedCmp.lt_of_gt ?_
        rcases hc : compare i j
        · exact absurd hc hnlt
        · exact absurd hc hne
        · rfl
      · exact hj e he

theorem Ascending.key_injective {es : List (Ident × Camera)} (h : Ascending es) {i : Ident}
    {c d : Camera} (hc : (i, c) ∈ es) (hd : (i, d) ∈ es) : c = d := by
  induction es with
  | nil => simp at hc
  | cons e es ih =>
    obtain ⟨he, hes⟩ := List.pairwise_cons.1 h
    rcases List.mem_cons.1 hc with rfl | hc'
    · rcases List.mem_cons.1 hd with hd | hd
      · exact (Prod.mk.inj hd).2.symm
      · exact absurd (he _ hd) (by simp)
    · rcases List.mem_cons.1 hd with rfl | hd
      · exact absurd (he _ hc') (by simp)
      · exact ih hes hc' hd

/-- Ascending entries are told by what is among them. -/
theorem Ascending.ext {es fs : List (Ident × Camera)} (hes : Ascending es) (hfs : Ascending fs)
    (h : ∀ e, e ∈ es ↔ e ∈ fs) : es = fs := by
  have hnodup : ∀ {es : List (Ident × Camera)}, Ascending es → es.Nodup := fun hes =>
    hes.imp fun hlt heq => by simp [heq] at hlt
  have hperm : es.Perm fs := (List.perm_ext_iff_of_nodup (hnodup hes) (hnodup hfs)).2 h
  refine hperm.eq_of_pairwise (fun a b _ _ hab hba => ?_) hes hfs
  exact absurd hba (OrientedCmp.not_lt_of_lt hab)

theorem mem_of_lookup {es : List (Ident × Camera)} {i : Ident} {c : Camera}
    (h : es.lookup i = some c) : (i, c) ∈ es := by
  obtain ⟨l, r, rfl, -⟩ := List.lookup_eq_some_iff.1 h
  simp

theorem lookup_eq_some_iff_mem {es : List (Ident × Camera)} (h : Ascending es) {i : Ident}
    {c : Camera} : es.lookup i = some c ↔ (i, c) ∈ es := by
  refine ⟨mem_of_lookup, fun hc => ?_⟩
  rcases hl : es.lookup i with _ | d
  · simpa using List.lookup_eq_none_iff.1 hl _ hc
  · rw [h.key_injective (mem_of_lookup hl) hc]

theorem isSome_lookup_iff {es : List (Ident × Camera)} {i : Ident} :
    (es.lookup i).isSome ↔ i ∈ es.map (·.1) := by
  simp only [List.lookup_isSome_iff, beq_iff_eq, List.mem_map]
  exact ⟨fun ⟨e, he, h⟩ => ⟨e, he, h.symm⟩, fun ⟨e, he, h⟩ => ⟨e, he, h.symm⟩⟩

theorem contains_iff {r : Registry} {i : Ident} : r.contains i ↔ i ∈ r.entries.map (·.1) :=
  isSome_lookup_iff

theorem map_fst_replace (r : Registry) (i : Ident) (c : Camera) :
    (r.replace i c).entries.map (·.1) = r.entries.map (·.1) := by
  simp only [replace, List.map_map]
  refine List.map_congr_left fun e _ => ?_
  simp only [Function.comp_apply]
  split_ifs <;> rfl

theorem mem_replace {r : Registry} {i k : Ident} {c d : Camera}
    (h : (k, d) ∈ (r.replace i c).entries) :
    (k = i ∧ d = c) ∨ (k ≠ i ∧ (k, d) ∈ r.entries) := by
  obtain ⟨e, he, hed⟩ := List.mem_map.1 h
  split_ifs at hed with hi
  · obtain ⟨rfl, rfl⟩ := Prod.mk.inj hed
    exact Or.inl ⟨hi, rfl⟩
  · subst hed
    exact Or.inr ⟨hi, he⟩

theorem ascending_replace {r : Registry} (h : Ascending r.entries) (i : Ident) (c : Camera) :
    Ascending (r.replace i c).entries := by
  have hk : (r.entries.map (·.1)).Pairwise (compare · · = .lt) := List.pairwise_map.2 h
  rw [← map_fst_replace r i c] at hk
  exact List.pairwise_map.1 hk

theorem get?_replace (r : Registry) (i k : Ident) (c : Camera) :
    (r.replace i c).get? k = if k = i then (r.get? k).map fun _ => c else r.get? k := by
  simp only [get?, replace]
  induction r.entries with
  | nil => simp
  | cons e es ih =>
    obtain ⟨j, d⟩ := e
    by_cases hk : k = j
    · subst hk
      by_cases hi : k = i <;> simp [hi]
    · have hkj : (k == j) = false := beq_eq_false_iff_ne.2 hk
      by_cases hj : j = i
      · subst hj
        simpa only [List.map_cons, List.lookup_cons, hkj, ↓reduceIte] using ih
      · simpa only [List.map_cons, List.lookup_cons, hkj, hj, ↓reduceIte] using ih

/-- Putting a camera in its own place changes nothing. -/
theorem replace_self {r : Registry} (h : Ascending r.entries) {i : Ident} {c : Camera}
    (hc : r.get? i = some c) : r.replace i c = r := by
  obtain ⟨es, options⟩ := r
  simp only [replace, mk.injEq, and_true]
  refine (List.map_congr_left fun e he => ?_).trans (List.map_id' es)
  obtain ⟨j, d⟩ := e
  split_ifs with hj
  · subst hj
    rw [h.key_injective he (mem_of_lookup hc)]
  · rfl

end CameraFleet.Registry
