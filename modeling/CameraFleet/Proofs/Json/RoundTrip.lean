import Mathlib
import CameraFleet.Proofs.Json.Number

/-!
# Reading back what is written

A value that can be written is read back from its document, as deep as it may be, but for its
doubles: each comes back as what its own text stands for (`parse?_render_eq`). The text of a value
is cut into tokens, and these bring the reader to the end of the value, whatever lists and tables
are open around it. A value whose doubles are read back from their texts comes back as it is
(`parse?_render`).
-/

namespace CameraFleet.Json

/-- The values that have a document of their own: the integers in them have 64 bits, and the
fields names. -/
inductive Writable : Datum → Prop where
  | null : Writable .null
  | bool (b : Bool) : Writable (.bool b)
  | integer {n : Int} (hlow : -2 ^ 63 ≤ n) (hhigh : n < 2 ^ 64) : Writable (.integer n)
  | real (x : Binary64) : Writable (.real x)
  | text (s : String) : Writable (.text s)
  | list {items : List Datum} (h : ∀ d ∈ items, Writable d) : Writable (.list items)
  | table {fields : List (String × Datum)} (h : ∀ f ∈ fields, Writable f.2) :
    Writable (.ofFields fields)

/-- What is read from the document of a value. -/
def reread : Datum → Datum
  | .null => .null
  | .bool b => .bool b
  | .integer n => .integer n
  | .real x => (number? x.document).getD .null
  | .text s => .text s
  | .list items => .list (items.map reread)
  | .table fields => .table (fields.map fun f => (f.1, reread f.2))
  | .moment => .null
  | .unreadable => .null
decreasing_by
  · have := List.sizeOf_lt_of_mem ‹_ ∈ items›
    simp only [Datum.list.sizeOf_spec]
    omega
  · have := List.sizeOf_lt_of_mem ‹f ∈ fields›
    have : sizeOf f = 1 + sizeOf f.1 + sizeOf f.2 := rfl
    simp only [Datum.table.sizeOf_spec]
    omega

theorem reread_list (items : List Datum) : reread (.list items) = .list (items.map reread) := by
  rw [reread]

theorem reread_ofFields (fields : List (String × Datum)) :
    reread (.ofFields fields) = .ofFields (fields.map fun f => (f.1, reread f.2)) := by
  rw [Datum.ofFields, reread, Datum.ofFields, List.map_map, List.map_map]
  rfl

/-- The values that are read back from what is written for them. -/
inductive Written : Datum → Prop where
  | null : Written .null
  | bool (b : Bool) : Written (.bool b)
  | integer {n : Int} (hlow : -2 ^ 63 ≤ n) (hhigh : n < 2 ^ 64) : Written (.integer n)
  | real {x : Binary64} (hx : number? x.document = some (.real x)) : Written (.real x)
  | text (s : String) : Written (.text s)
  | list {items : List Datum} (h : ∀ d ∈ items, Written d) : Written (.list items)
  | table {fields : List (String × Datum)} (h : ∀ f ∈ fields, Written f.2) :
    Written (.ofFields fields)

theorem Written.writable {d : Datum} (h : Written d) : Writable d := by
  induction h with
  | null => exact .null
  | bool b => exact .bool b
  | integer hlow hhigh => exact .integer hlow hhigh
  | real _ => exact .real _
  | text s => exact .text s
  | list _ ih => exact .list ih
  | table _ ih => exact .table ih

theorem Written.reread_eq {d : Datum} (h : Written d) : reread d = d := by
  induction h with
  | real hx => rw [reread, hx, Option.getD_some]
  | list _ ih => rw [reread_list, List.map_congr_left ih, List.map_id']
  | table _ ih =>
    rw [reread_ofFields, List.map_congr_left fun f hf => congrArg (Prod.mk f.1) (ih f hf),
      List.map_id']
  | _ => simp [reread]

/-- The tokens bring the reader from the beginning of the value to its end. -/
def Stands (ts : List Token) (d : Datum) : Prop :=
  ∀ outer more, Reader.run (.value outer) (ts ++ more) = Reader.run (.close d outer) more

theorem run_cons {r r' : Reader} {t : Token} (h : r.step t = some r') (ts : List Token) :
    Reader.run r (t :: ts) = Reader.run r' ts := by
  rw [Reader.run, h, Option.bind_some]

theorem stands_single {t : Token} {d : Datum}
    (h : ∀ outer, Reader.enter outer t = some (.close d outer)) : Stands [t] d := by
  intro outer more
  exact run_cons (r := .value outer) (h outer) more

/-- The first item of a list is read like any other value. -/
theorem Stands.run_opened {ts : List Token} {d : Datum} (h : Stands ts d) (outer : List Frame)
    (more : List Token) : Reader.run (.opened outer) (ts ++ more) =
      Reader.run (.value (.list [] :: outer)) (ts ++ more) := by
  rcases ts with _ | ⟨t, ts⟩
  · exact nomatch h [] []
  · cases t with
    | closeList => exact nomatch h [] []
    | _ => rfl

/-- The items of a list, up to its end. -/
theorem stands_items : ∀ {items : List Datum}, items ≠ [] →
    (∀ d ∈ items, ∃ ts, Cuts (compact d) ts ∧ Stands ts (reread d)) →
    ∃ ts, Cuts (compactItems items) ts ∧
      (∀ outer more, Reader.run (.opened outer) (ts ++ more) =
        Reader.run (.value (.list [] :: outer)) (ts ++ more)) ∧
      ∀ found outer more, Reader.run (.value (.list found :: outer)) (ts ++ .closeList :: more) =
        Reader.run (.close (.list (found.reverse ++ items.map reread)) outer) more
  | [], hne, _ => absurd rfl hne
  | [d], _, h => by
    obtain ⟨ts, hcuts, hstands⟩ := h d List.mem_cons_self
    refine ⟨ts, hcuts, hstands.run_opened, fun found outer more => ?_⟩
    rw [hstands, Reader.close, run_cons rfl, List.reverse_cons]
    rfl
  | d :: e :: ds, _, h => by
    obtain ⟨ts, hcuts, hstands⟩ := h d List.mem_cons_self
    obtain ⟨ts', hcuts', -, hstands'⟩ :=
      stands_items (List.cons_ne_nil e ds) fun d' hd' => h d' (List.mem_cons_of_mem d hd')
    refine ⟨ts ++ .comma :: ts', hcuts.append rfl hcuts', fun outer more => ?_,
      fun found outer more => ?_⟩
    · rw [List.append_assoc, hstands.run_opened]
    · rw [List.append_assoc, hstands, Reader.close, List.cons_append, run_cons rfl, hstands',
        List.reverse_cons, List.append_assoc]
      rfl

/-- The fields of a table, up to its end, once the name of the first has been read. -/
theorem stands_fields : ∀ {fields : List (String × Datum)}, fields ≠ [] →
    (∀ f ∈ fields, ∃ ts, Cuts (compact f.2) ts ∧ Stands ts (reread f.2)) →
    ∃ name ts, Cuts (compactFields (fields.map fun f => (some f.1, f.2)))
        (.text (some name) :: ts) ∧
      ∀ found outer more,
        Reader.run (.keyed found (some name) outer) (ts ++ .closeTable :: more) =
          Reader.run (.close (.table (found.reverse ++
            fields.map fun f => (some f.1, reread f.2))) outer) more
  | [], hne, _ => absurd rfl hne
  | [(name, d)], _, h => by
    obtain ⟨ts, hcuts, hstands⟩ := h _ List.mem_cons_self
    refine ⟨name, .colon :: ts, (Cuts.punctuation rfl hcuts).quoted name,
      fun found outer more => ?_⟩
    rw [List.cons_append, run_cons rfl, hstands, Reader.close, run_cons rfl, List.reverse_cons]
    rfl
  | (name, d) :: f :: fs, _, h => by
    obtain ⟨ts, hcuts, hstands⟩ := h _ List.mem_cons_self
    obtain ⟨name', ts', hcuts', hstands'⟩ :=
      stands_fields (List.cons_ne_nil f fs) fun f' hf' => h f' (List.mem_cons_of_mem _ hf')
    refine ⟨name, .colon :: (ts ++ .comma :: .text (some name') :: ts'),
      (Cuts.punctuation rfl (hcuts.append rfl hcuts')).quoted name, fun found outer more => ?_⟩
    rw [List.cons_append, run_cons rfl, List.append_assoc, hstands, Reader.close,
      List.cons_append, run_cons rfl, List.cons_append, run_cons rfl, hstands', List.reverse_cons,
      List.append_assoc]
    rfl

/-- What is written is cut into tokens that stand for what is read again. -/
theorem Writable.stands {d : Datum} (h : Writable d) :
    ∃ ts, Cuts (compact d) ts ∧ Stands ts (reread d) := by
  induction h with
  | null => rw [reread]; exact ⟨_, Cuts.word rfl, stands_single fun _ => rfl⟩
  | bool b =>
    rw [reread]
    cases b with
    | false => exact ⟨_, Cuts.word rfl, stands_single fun _ => rfl⟩
    | true => exact ⟨_, Cuts.word rfl, stands_single fun _ => rfl⟩
  | integer hlow hhigh =>
    rw [reread]
    exact ⟨_, Cuts.number (number?_intText hlow hhigh), stands_single fun _ => rfl⟩
  | real x =>
    rw [reread]
    by_cases hx : x.isFinite
    · obtain ⟨y, hy⟩ := number?_document hx
      rw [hy, Option.getD_some]
      exact ⟨_, Cuts.number hy, stands_single fun _ => rfl⟩
    · have hnull : compact (.real x) = compact .null := document_of_not_isFinite hx
      rw [hnull, document_of_not_isFinite hx]
      exact ⟨_, Cuts.word rfl, stands_single fun _ => rfl⟩
  | text s =>
    rw [reread]
    refine ⟨[.text (some s)], ?_, stands_single fun _ => rfl⟩
    have hcuts := Cuts.nil.quoted s
    rwa [List.append_nil] at hcuts
  | @list items _ ih =>
    rw [reread_list]
    by_cases hne : items = []
    · subst hne
      exact ⟨[.openList, .closeList], (Cuts.nil.punctuation rfl).punctuation rfl, fun _ _ => rfl⟩
    · obtain ⟨ts, hcuts, hopened, hstands⟩ := stands_items hne ih
      refine ⟨.openList :: (ts ++ [.closeList]), (hcuts.append rfl .nil).punctuation rfl,
        fun outer more => ?_⟩
      rw [List.cons_append, run_cons rfl, List.append_assoc, hopened]
      exact hstands [] outer more
  | @table fields _ ih =>
    rw [reread_ofFields, Datum.ofFields, Datum.ofFields, List.map_map]
    by_cases hne : fields = []
    · subst hne
      exact ⟨[.openTable, .closeTable], (Cuts.nil.punctuation rfl).punctuation rfl, fun _ _ => rfl⟩
    · obtain ⟨name, ts, hcuts, hstands⟩ := stands_fields hne ih
      refine ⟨.openTable :: (.text (some name) :: ts ++ [.closeTable]),
        (hcuts.append rfl .nil).punctuation rfl, fun outer more => ?_⟩
      rw [List.cons_append, run_cons rfl, List.append_assoc, List.cons_append, run_cons rfl]
      exact hstands [] outer more

/-- A value is read from its document as it is, but for the doubles. -/
theorem parse?_render_eq {d : Datum} (h : Writable d) : parse? (render d) = some (reread d) := by
  obtain ⟨ts, hcuts, hstands⟩ := h.stands
  have hrun := hstands [] []
  rw [List.append_nil] at hrun
  rw [parse?, ofSymbols?, Utf8.ofText, render, String.toList_ofList, hcuts.scan?_eq,
    Option.bind_some, ofTokens?, hrun]
  rfl

/-- A value is read back from its document. -/
theorem parse?_render {d : Datum} (h : Written d) : parse? (render d) = some d := by
  rw [parse?_render_eq h.writable, h.reread_eq]

theorem parseBytes?_render_eq {d : Datum} (h : Writable d) :
    parseBytes? (render d).toUTF8 = some (reread d) := by
  rw [parseBytes?, Utf8.symbols_toUTF8]
  exact parse?_render_eq h

theorem parseBytes?_toUTF8_render {d : Datum} (h : Written d) :
    parseBytes? (render d).toUTF8 = some d := by
  rw [parseBytes?_render_eq h.writable, h.reread_eq]

/-! ## Documents that are read as a whole -/

/-- The value is read back from its document, and nothing inside it has more than `room` lists and
tables around it. -/
structure Fits (room : Nat) (d : Datum) : Prop where
  written : Written d
  readable : d.isReadable room = true

namespace Fits

theorem integer (room : Nat) {n : Int} (hlow : -2 ^ 63 ≤ n) (hhigh : n < 2 ^ 64) :
    Fits room (.integer n) :=
  ⟨.integer hlow hhigh, by cases room <;> rfl⟩

theorem uint32 (room : Nat) (n : UInt32) : Fits room (.integer n.toNat) := by
  have := n.toNat_lt
  exact integer room (by omega) (by omega)

theorem real (room : Nat) {x : Binary64} (h : number? x.document = some (.real x)) :
    Fits room (.real x) :=
  ⟨.real h, by cases room <;> rfl⟩

theorem text (room : Nat) (s : String) : Fits room (.text s) :=
  ⟨.text s, by cases room <;> rfl⟩

variable {room : Nat}

theorem list {items : List Datum} (h : ∀ d ∈ items, Fits room d) :
    Fits (room + 1) (.list items) := by
  refine ⟨.list fun d hd => (h d hd).written, ?_⟩
  simpa only [Datum.isReadable, List.all_eq_true] using fun d hd => (h d hd).readable

theorem table {fields : List (String × Datum)} (h : ∀ f ∈ fields, Fits room f.2) :
    Fits (room + 1) (.ofFields fields) := by
  refine ⟨.table fun f hf => (h f hf).written, ?_⟩
  simpa [Datum.ofFields, Datum.isReadable] using fun name d hf => (h (name, d) hf).readable

end Fits

end CameraFleet.Json
