import Mathlib.Tactic.Common
import CameraFleet.Datum.Record

/-!
# Reading back records

A table of distinct fields that a record has is found as it is (`record?_ofFields`), and a field
that is written only where it has a value is read back as the value or its absence
(`optional?_eq`). A list is read back just when each of its items is (`listOf?_map_iff`).
-/

namespace CameraFleet.Datum

theorem known?_eq {names : List String} : ∀ {fields : Record}, (∀ f ∈ fields, f.1 ∈ names) →
    (fields.map (·.1)).Nodup → known? names (fields.map fun f => (some f.1, f.2)) = some fields
  | [], _, _ => rfl
  | (name, d) :: rest, hnames, hnodup => by
    obtain ⟨hname, hrest⟩ := List.forall_mem_cons.1 hnames
    obtain ⟨hnew, hnodup⟩ := List.nodup_cons.1 hnodup
    have hlookup : (rest.lookup name).isSome = false := by
      rw [Option.isSome_eq_false_iff, Option.isNone_iff_eq_none, List.lookup_eq_none_iff]
      intro f hf
      rw [bne_iff_ne]
      exact fun heq => hnew (List.mem_map.2 ⟨f, hf, heq.symm⟩)
    rw [List.map_cons, known?]
    simp only [known?_eq hrest hnodup, hname, not_true_eq_false, if_false, hlookup,
      Bool.false_eq_true]

theorem record?_ofFields {names : List String} {fields : Record}
    (hnames : ∀ f ∈ fields, f.1 ∈ names) (hnodup : (fields.map (·.1)).Nodup) :
    (ofFields fields).record? names = some fields :=
  known?_eq hnames hnodup

/-- Fields in the order of the names, some of which may be missing, are found as they are. -/
theorem record?_of_sublist {names : List String} {fields : Record}
    (hsub : (fields.map (·.1)).Sublist names) (hnames : names.Nodup) :
    (ofFields fields).record? names = some fields :=
  record?_ofFields (fun _ hf => hsub.subset (List.mem_map_of_mem hf)) (hsub.nodup hnames)

/-- Where the fields of a record are found, a field of it can be given another value. -/
theorem known?_append_cons {names : List String} {name : String} (hname : name ∈ names)
    {d : Datum} : ∀ {before after : List (Option String × Datum)} {found : Record},
      known? names (before ++ (some name, d) :: after) = some found →
      ∃ front back : Record, front.lookup name = none ∧ ∀ d',
        known? names (before ++ (some name, d') :: after) = some (front ++ (name, d') :: back)
  | [], after, found, h => by
    rcases hafter : known? names after with _ | back
    · simp [known?, hafter] at h
    · refine ⟨[], back, rfl, fun d' => ?_⟩
      simp only [List.nil_append, known?, hafter, hname, not_true_eq_false, if_false] at h ⊢
      split_ifs at h with hfound
      exact if_neg hfound
  | (none, _) :: _, _, _, h => by simp [known?] at h
  | (some other, d₀) :: before, after, found, h => by
    rcases hrest : known? names (before ++ (some name, d) :: after) with _ | rest
    · simp [known?, hrest] at h
    obtain ⟨front, back, hfront, hall⟩ := known?_append_cons hname hrest
    obtain rfl := Option.some.inj ((hall d).symm.trans hrest)
    by_cases hother : other ∈ names
    · have htwice : ∀ d', ((front ++ (name, d') :: back).lookup other).isSome =
          ((front ++ (name, d) :: back).lookup other).isSome := fun d' => by
        rw [List.lookup_append, List.lookup_append, List.lookup_cons, List.lookup_cons]
        cases front.lookup other <;> cases other == name <;> rfl
      simp only [List.cons_append, known?, hrest, hother, not_true_eq_false, if_false] at h
      split_ifs at h with hfound
      have hne : (name == other) = false := by
        rw [beq_eq_false_iff_ne]
        rintro rfl
        exact hfound (by simp [List.lookup_append, hfront])
      refine ⟨(other, d₀) :: front, back, by rw [List.lookup_cons, hne, hfront], fun d' => ?_⟩
      simp only [List.cons_append, known?, hall, hother, not_true_eq_false, if_false, htwice]
      exact if_neg hfound
    · exact ⟨front, back, hfront, fun d' => by
        simp only [List.cons_append, known?, hall, hother, not_false_eq_true, if_true]⟩

theorem uint32?_toNat (n : UInt32) : (integer n.toNat).uint32? = some n := by
  have := n.toNat_lt_size
  rw [uint32?, word?, Int.toNat_natCast, if_pos ⟨by omega, by omega⟩, Option.map_some,
    UInt32.ofNat_toNat]

theorem listOf?_map_iff {α β : Type} {read : Datum → Option β} {write : α → Datum} {g : α → β}
    {l : List α} :
    (list (l.map write)).listOf? read = some (l.map g) ↔ ∀ a ∈ l, read (write a) = some (g a) := by
  rw [listOf?]
  induction l with
  | nil => simp
  | cons a l ih =>
    rw [List.map_cons, List.mapM_cons, List.forall_mem_cons, ← ih]
    rcases read (write a) with _ | b
    · simp
    · rcases (l.map write).mapM read with _ | bs <;> simp

theorem listOf?_map_eq_none {α β : Type} {read : Datum → Option β} {write : α → Datum} {a : α} :
    ∀ {l : List α}, a ∈ l → read (write a) = none → (list (l.map write)).listOf? read = none
  | b :: l, ha, hnone => by
    rw [listOf?, List.map_cons, List.mapM_cons]
    rcases List.mem_cons.1 ha with rfl | ha
    · rw [hnone]
      rfl
    · have hrest : (l.map write).mapM read = none := listOf?_map_eq_none ha hnone
      rw [hrest]
      cases read (write b) <;> rfl

namespace Record

variable {α : Type} {fields : Record} {name other : String}

theorem lookup_append_cons_of_ne (h : other ≠ name) (front back : Record) (d : Datum) :
    (front ++ (name, d) :: back).lookup other = (front ++ back).lookup other := by
  rw [List.lookup_append, List.lookup_append, List.lookup_cons, beq_eq_false_iff_ne.2 h]

/-- Fields of other names are read as if the field were not there. -/
theorem read_append_cons_of_ne (h : other ≠ name) (front back : Record) (d : Datum)
    (read : Datum → Option α) :
    (front ++ (name, d) :: back).required? other read = (front ++ back).required? other read ∧
      (front ++ (name, d) :: back).optional? other read = (front ++ back).optional? other read := by
  simp only [required?, optional?, lookup_append_cons_of_ne h, and_self]

theorem lookup_append_cons {front : Record} (h : front.lookup name = none) (back : Record)
    (d : Datum) : (front ++ (name, d) :: back).lookup name = some d := by
  rw [List.lookup_append, h, Option.none_or, List.lookup_cons_self]

theorem lookup_optional (name : String) (f : α → Datum) (o : Option α) :
    ((o.map fun a => (name, f a)).toList).lookup name = o.map f := by
  cases o with
  | none => rfl
  | some a => simp

theorem lookup_optional_of_ne (h : name ≠ other) (f : α → Datum) (o : Option α) :
    ((o.map fun a => (other, f a)).toList).lookup name = none := by
  cases o with
  | none => rfl
  | some a => simp [List.lookup_cons, beq_eq_false_iff_ne.2 h]

theorem sublist_optional (name : String) (f : α → Datum) (o : Option α) :
    ((o.map fun a => (name, f a)).toList.map (·.1)).Sublist [name] := by
  cases o with
  | none => exact List.nil_sublist _
  | some a => exact List.Sublist.refl _

theorem forall_mem_optional {P : Datum → Prop} {f : α → Datum} {o : Option α} :
    (∀ p ∈ (o.map fun a => (name, f a)).toList, P p.2) ↔ ∀ a, o = some a → P (f a) := by
  cases o <;> simp

theorem map_optional (name : String) (f : α → Datum) (g : Datum → Datum) (o : Option α) :
    (o.map fun a => (name, f a)).toList.map (fun p => (p.1, g p.2)) =
      (o.map fun a => (name, g (f a))).toList := by
  cases o <;> rfl

/-- An optional field that is there and not null has to be read. -/
theorem optional?_of_ne_null {d : Datum} (h : fields.lookup name = some d) (hd : d ≠ .null)
    (read : Datum → Option α) : fields.optional? name read = (read d).map some := by
  unfold optional?
  rw [h]
  split
  · simp at *
  · simp_all
  · simp_all

/-- An optional field is read back if it is written as what is read, and never as null. -/
theorem optional?_eq {f : α → Datum} {read : Datum → Option α} {o : Option α}
    (hlookup : fields.lookup name = o.map f)
    (hread : ∀ a, o = some a → f a ≠ .null ∧ read (f a) = some a) :
    fields.optional? name read = some o := by
  cases o with
  | none => simp only [optional?, hlookup, Option.map_none]
  | some a =>
    obtain ⟨hnull, ha⟩ := hread a rfl
    rw [optional?_of_ne_null hlookup hnull, ha, Option.map_some]

end Record

end CameraFleet.Datum
