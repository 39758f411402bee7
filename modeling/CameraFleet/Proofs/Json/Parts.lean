import CameraFleet.Proofs.Json.Literal

/-!
# Documents in parts

A document can be cut between two tokens: the tokens of the parts are those of the whole
(`Token.scan?_append`). What is read of a value does not depend on what is open around it
(`Reader.run_within`). So a literal that stands in the outermost list or table of a document can be
exchanged for any other, and only its own value changes (`Awaits.exists_items`,
`Awaits.exists_fields`).
-/

namespace CameraFleet.Json

open Utf8 (Symbol)

namespace Token

variable {s rest : List Symbol}

theorem hex4?_append {n : Nat} (h : hex4? s = some (n, rest)) (more : List Symbol) :
    hex4? (s ++ more) = some (n, rest ++ more) := by
  unfold hex4? at h
  split at h
  · simp only [Option.bind_eq_bind, Option.bind_eq_some_iff, Option.pure_def, Option.some.injEq,
      Prod.mk.injEq] at h
    obtain ⟨a, ha, b, hb, c, hc, d, hd, rfl, rfl⟩ := h
    simp [hex4?, ha, hb, hc, hd]
  · simp at h

theorem pair?_append {n : Nat} {c : Char} (h : pair? n s = some (c, rest)) (more : List Symbol) :
    pair? n (s ++ more) = some (c, rest ++ more) := by
  unfold pair? at h
  split at h
  · split at h
    · rename_i he
      split_ifs at h with hlow
      simp only [Option.some.injEq, Prod.mk.injEq] at h
      obtain ⟨rfl, rfl⟩ := h
      simp [pair?, hex4?_append he more, hlow]
    · simp at h
  · simp at h

theorem scanText_unicode (found : Option (List Char)) (s : List Symbol) :
    scanText found (some '\\' :: some 'u' :: s) =
      match hex4? s with
      | none => none
      | some (n, rest) =>
        if 0xD800 ≤ n ∧ n < 0xDC00 then
          match pair? n rest with
          | some (c, rest) => scanText (found.map (c :: ·)) rest
          | none => scanText none rest
        else if 0xDC00 ≤ n ∧ n < 0xE000 then scanText none rest
        else scanText (found.map (Char.ofNat n :: ·)) rest := by
  rw [scanText]
  split
  · simp only [*]
  · simp only [*]
    split_ifs
    · split <;> simp only [*]
    · rfl
    · rfl

/-- Where no second unit follows and the text still has an end, none follows in a longer one. -/
theorem pair?_append_eq_none {n : Nat} {found : Option (List Char)}
    {r : Option String × List Symbol} (h : pair? n s = none) (hs : scanText found s = some r)
    (more : List Symbol) : pair? n (s ++ more) = none := by
  rcases s with _ | ⟨a, _ | ⟨b, s⟩⟩
  · simp [scanText] at hs
  · by_cases ha : a = some '\\'
    · simp [ha, scanText] at hs
    · unfold pair?
      split
      · simp_all
      · rfl
  · by_cases hab : a = some '\\' ∧ b = some 'u'
    · obtain ⟨rfl, rfl⟩ := hab
      rw [scanText_unicode] at hs
      rcases hhex : hex4? s with _ | ⟨low, rest⟩
      · simp [hhex] at hs
      · simp only [pair?, hhex] at h
        simp only [List.cons_append, pair?, hex4?_append hhex more]
        split_ifs at h with hlow
        rw [if_neg hlow]
    · unfold pair?
      split
      · simp_all
      · rfl

theorem scanText_append {found : Option (List Char)} {v : Option String}
    (h : scanText found s = some (v, rest)) (more : List Symbol) :
    scanText found (s ++ more) = some (v, rest ++ more) := by
  fun_induction scanText found s with
  | case1 => simp at h
  | case2 _ _ ih =>
    rw [List.cons_append, scanText]
    exact ih h
  | case3 =>
    simp only [Option.some.injEq, Prod.mk.injEq] at h
    obtain ⟨rfl, rfl⟩ := h
    rw [List.cons_append, scanText]
  | case4 => simp at h
  | case5 _ _ _ _ he hhigh _ _ hp ih =>
    rw [List.cons_append, List.cons_append, scanText_unicode, hex4?_append he more]
    simp only [if_pos hhigh, pair?_append hp more]
    exact ih h
  | case6 _ _ _ _ he hhigh hp ih =>
    rw [List.cons_append, List.cons_append, scanText_unicode, hex4?_append he more]
    simp only [if_pos hhigh, pair?_append_eq_none hp h more]
    exact ih h
  | case7 _ _ _ _ he hhigh hlow ih =>
    rw [List.cons_append, List.cons_append, scanText_unicode, hex4?_append he more]
    simp only [if_neg hhigh, if_pos hlow]
    exact ih h
  | case8 _ _ _ _ he hhigh hlow ih =>
    rw [List.cons_append, List.cons_append, scanText_unicode, hex4?_append he more]
    simp only [if_neg hhigh, if_neg hlow]
    exact ih h
  | case9 found e _ hu c hc ih =>
    rw [List.cons_append, List.cons_append, scanText_escape hc hu]
    exact ih h
  | case10 => simp at h
  | case11 => simp at h
  | case12 => simp at h
  | case13 found c _ hquote _ _ hback hc ih =>
    rw [List.cons_append, scanText_plain hquote hback hc]
    exact ih h

/-- A run of characters that something else follows in the part is no longer in the whole. -/
theorem run_append {p : Symbol → Bool} {s : List Symbol} (h : s.dropWhile p ≠ [])
    (more : List Symbol) : (s ++ more).takeWhile p = s.takeWhile p ∧
      (s ++ more).dropWhile p = s.dropWhile p ++ more := by
  induction s with
  | nil => exact absurd rfl h
  | cons a s ih =>
    by_cases ha : p a = true
    · rw [List.dropWhile_cons_of_pos ha] at h
      obtain ⟨htake, hdrop⟩ := ih h
      rw [List.cons_append, List.takeWhile_cons_of_pos ha, List.takeWhile_cons_of_pos ha,
        List.dropWhile_cons_of_pos ha, List.dropWhile_cons_of_pos ha, htake, hdrop]
      exact ⟨rfl, rfl⟩
    · rw [List.cons_append, List.takeWhile_cons_of_neg ha, List.takeWhile_cons_of_neg ha,
        List.dropWhile_cons_of_neg ha, List.dropWhile_cons_of_neg ha]
      exact ⟨rfl, rfl⟩

theorem scalar_of_word? {cs : List Char} {t : Token} (h : word? cs = some t) :
    ∃ d, t = .scalar d := by
  unfold word? at h
  split_ifs at h <;> exact ⟨_, (Option.some.inj h).symm⟩

/-- The tokens of a part come first in the whole, unless the last of them might go on. -/
theorem scanFrom_append {found ts : List Token} (h : scanFrom found s = some ts)
    (hlast : ∀ d, ts.head? ≠ some (.scalar d)) (more : List Symbol) :
    scanFrom found (s ++ more) = scanFrom ts more := by
  have hrun : ∀ {found : List Token} {p : Symbol → Bool} {d : Datum} {s : List Symbol},
      scanFrom (.scalar d :: found) (s.dropWhile p) = some ts → s.dropWhile p ≠ [] := by
    intro found p d s h hnil
    rw [hnil, scanFrom, Option.some.injEq] at h
    exact hlast d (by rw [← h, List.head?_cons])
  fun_induction scanFrom found s with
  | case1 => rw [Option.some.inj h, List.nil_append]
  | case2 => simp at h
  | case3 found c rest hblank ih =>
    rw [List.cons_append, scanFrom, if_pos hblank]
    exact ih h
  | case4 found c rest hblank t ht ih =>
    rw [List.cons_append, scanFrom, if_neg hblank, ht]
    exact ih h
  | case5 found rest v rest' hscan hblank hmark ih =>
    rw [List.cons_append, scanFrom_quote, scanText_append hscan more]
    exact ih h
  | case6 => simp at h
  | case7 found c rest hblank hmark hquote hc d hd ih =>
    obtain ⟨htake, hdrop⟩ := run_append (hrun h) more
    rw [List.cons_append, scanFrom, if_neg hblank, hmark]
    simp only [if_neg hquote, if_pos hc, htake, hd, hdrop]
    exact ih h
  | case8 => simp at h
  | case9 found c rest hblank hmark hquote hc t ht ih =>
    obtain ⟨d, rfl⟩ := scalar_of_word? ht
    obtain ⟨htake, hdrop⟩ := run_append (hrun h) more
    rw [List.cons_append, scanFrom, if_neg hblank, hmark]
    simp only [if_neg hquote, if_neg hc, htake, ht, hdrop]
    exact ih h
  | case10 => simp at h

/-- The tokens found before a part only come behind its own. -/
theorem scanFrom_found (found base : List Token) (s : List Symbol) :
    scanFrom (found ++ base) s = (scanFrom found s).map (· ++ base) := by
  fun_induction scanFrom found s with
  | case1 => rw [scanFrom, Option.map_some]
  | case2 => rw [scanFrom, Option.map_none]
  | case3 found c rest hblank ih => rw [scanFrom, if_pos hblank, ih]
  | case4 found c rest hblank t ht ih =>
    rw [scanFrom, if_neg hblank, ht]
    exact ih
  | case5 found rest v rest' hscan hblank hmark ih =>
    rw [scanFrom_quote, hscan]
    exact ih
  | case6 found rest hscan hblank hmark =>
    rw [scanFrom_quote, hscan, Option.bind_none, Option.map_none]
  | case7 found c rest hblank hmark hquote hc d hd ih =>
    rw [scanFrom, if_neg hblank, hmark]
    simp only [if_neg hquote, if_pos hc, hd]
    exact ih
  | case8 found c rest hblank hmark hquote hc hd =>
    rw [scanFrom, if_neg hblank, hmark]
    simp only [if_neg hquote, if_pos hc, hd, Option.map_none]
  | case9 found c rest hblank hmark hquote hc t ht ih =>
    rw [scanFrom, if_neg hblank, hmark]
    simp only [if_neg hquote, if_neg hc, ht]
    exact ih
  | case10 found c rest hblank hmark hquote hc ht =>
    rw [scanFrom, if_neg hblank, hmark]
    simp only [if_neg hquote, if_neg hc, ht, Option.map_none]

theorem scanFrom_eq (found : List Token) (s : List Symbol) :
    scanFrom found s = (scan? s).map (·.reverse ++ found) := by
  rw [← List.nil_append found, scanFrom_found, scan?, Option.map_map]
  simp [Function.comp_def]

/-- What follows a part is scanned as if it stood alone. -/
theorem scan?_append {ts : List Token} (h : scan? s = some ts)
    (hlast : ∀ d, ts.getLast? ≠ some (.scalar d)) (more : List Symbol) :
    scan? (s ++ more) = (scan? more).map (ts ++ ·) := by
  obtain ⟨found, hfound, rfl⟩ := Option.map_eq_some_iff.1 h
  rw [List.getLast?_reverse] at hlast
  rw [scan?, scanFrom_append hfound hlast, scanFrom_eq, Option.map_map]
  simp [Function.comp_def]

/-- A number is scanned as such in front of anything that it could not go on with. -/
theorem scan?_number {cs : List Char} {d : Datum} (h : number? cs = some d) (hrest : Ends rest) :
    scan? (cs.map some ++ rest) = (scan? rest).map (.scalar d :: ·) := by
  have hcuts := Cuts.number h [] rest hrest
  rw [scan?, hcuts, scanFrom_eq, Option.map_map]
  simp [Function.comp_def]

end Token

/-! ## Reading what is open -/

namespace Reader

variable {r r' : Reader} {t : Token} {ts : List Token} {outer : List Frame}

/-- The reader with lists and tables open around all that it has open. -/
def within (outer : List Frame) : Reader → Reader
  | .value up => .value (up ++ outer)
  | .opened up => .opened (up ++ outer)
  | .item items up => .item items (up ++ outer)
  | .begun up => .begun (up ++ outer)
  | .key fields up => .key fields (up ++ outer)
  | .keyed fields name up => .keyed fields name (up ++ outer)
  | .field fields up => .field fields (up ++ outer)
  | .done d => close d outer

theorem close_append (d : Datum) (up outer : List Frame) :
    close d (up ++ outer) = (close d up).within outer := by
  rcases up with _ | ⟨frame, up⟩
  · rfl
  · cases frame <;> rfl

theorem enter_append (up outer : List Frame) (t : Token) :
    enter (up ++ outer) t = (enter up t).map (within outer) := by
  cases t <;> simp [enter, within, close_append]

/-- What is read does not depend on what is open around it. -/
theorem step_within (hr : ∀ d, r ≠ .done d) (outer : List Frame) (t : Token) :
    (r.within outer).step t = (r.step t).map (within outer) := by
  cases r with
  | value up => exact enter_append up outer t
  | opened up =>
    have henter := enter_append (.list [] :: up) outer t
    cases t <;> simp_all [within, step, close_append, enter]
  | done d => exact absurd rfl (hr d)
  | _ => cases t <;> simp [within, step, close_append]

/-- A value that is being read within others has an end, which is the same within any. -/
theorem run_within {d : Datum} (hr : ∀ d, r ≠ .done d)
    (h : run (r.within outer) ts = some (.done d)) : ∃ d' us, us.length < ts.length ∧
      ∀ outer', run (r.within outer') ts = run (close d' outer') us := by
  induction ts generalizing r with
  | nil =>
    rw [run, Option.some.injEq] at h
    cases r with
    | done d => exact absurd rfl (hr d)
    | _ => simp [within] at h
  | cons t ts ih =>
    have hstep : ∀ outer', run (r.within outer') (t :: ts) =
        (r.step t).bind fun r' => run (r'.within outer') ts := fun outer' => by
      rw [run, step_within hr, Option.bind_map]
      rfl
    rw [hstep] at h
    obtain ⟨r', hr', h⟩ := Option.bind_eq_some_iff.1 h
    simp only [hr', Option.bind_some] at hstep
    by_cases hdone : ∃ d', r' = .done d'
    · obtain ⟨d', rfl⟩ := hdone
      exact ⟨d', ts, Nat.lt_succ_self _, hstep⟩
    · obtain ⟨d', us, hlength, hrest⟩ := ih (fun d' hd' => hdone ⟨d', hd'⟩) h
      exact ⟨d', us, hlength.trans (Nat.lt_succ_self _), fun outer' => by rw [hstep, hrest]⟩

theorem run_done {d : Datum} (h : run (.done d) ts = some r) : ts = [] := by
  rcases ts with _ | ⟨t, ts⟩
  · rfl
  · simp [run, step] at h

/-- What follows an item of the outermost list adds items to it. -/
theorem run_item : ∀ {ts : List Token} {items : List Datum} {d : Datum},
    run (.item items []) ts = some (.done d) → ∃ more, ∀ items',
      run (.item items' []) ts = some (.done (.list (items'.reverse ++ more)))
  | [], _, _, h => by simp [run] at h
  | t :: ts, items, d, h => by
    cases t with
    | comma =>
      obtain ⟨d', us, hlength, hrest⟩ := run_within (r := .value []) nofun h
      have hitem : ∀ items', run (.item items' []) (.comma :: ts) =
          run (.item (d' :: items') []) us := fun items' => hrest [.list items']
      rw [hitem] at h
      obtain ⟨more, hmore⟩ := run_item h
      exact ⟨d' :: more, fun items' => by
        rw [hitem, hmore, List.reverse_cons, List.append_assoc]
        rfl⟩
    | closeList =>
      obtain rfl := run_done h
      exact ⟨[], fun items' => by rw [List.append_nil]; rfl⟩
    | _ => simp [run, step] at h
termination_by ts => ts.length

/-- After a comma a further field has its name and a colon. -/
theorem run_key {fields : List (Option String × Datum)} {d : Datum}
    (h : run (.key fields outer) ts = some (.done d)) :
    ∃ name us, ts = .text name :: .colon :: us := by
  rcases ts with _ | ⟨t, ts⟩
  · simp [run] at h
  cases t with
  | text name =>
    rcases ts with _ | ⟨t, us⟩
    · simp [run, step] at h
    cases t with
    | colon => exact ⟨name, us, rfl⟩
    | _ => simp [run, step] at h
  | _ => simp [run, step] at h

/-- What follows a field of the outermost table adds fields to it. -/
theorem run_field : ∀ {ts : List Token} {fields : List (Option String × Datum)} {d : Datum},
    run (.field fields []) ts = some (.done d) → ∃ more, ∀ fields',
      run (.field fields' []) ts = some (.done (.table (fields'.reverse ++ more)))
  | [], _, _, h => by simp [run] at h
  | t :: ts, fields, d, h => by
    cases t with
    | comma =>
      have hkey : run (.key fields []) ts = some (.done d) := h
      obtain ⟨name, ts, rfl⟩ := run_key hkey
      obtain ⟨d', us, hlength, hrest⟩ := run_within (r := .value []) nofun h
      have hfield : ∀ fields', run (.field fields' []) (.comma :: .text name :: .colon :: ts) =
          run (.field ((name, d') :: fields') []) us := fun fields' => hrest [.table fields' name]
      rw [hfield] at h
      obtain ⟨more, hmore⟩ := run_field h
      exact ⟨(name, d') :: more, fun fields' => by
        rw [hfield, hmore, List.reverse_cons, List.append_assoc]
        rfl⟩
    | closeTable =>
      obtain rfl := run_done h
      exact ⟨[], fun fields' => by rw [List.append_nil]; rfl⟩
    | _ => simp [run, step] at h
termination_by ts => ts.length
decreasing_by
  subst_vars
  simp only [List.length_cons]
  omega

theorem run_append (r : Reader) (ts us : List Token) :
    run r (ts ++ us) = (run r ts).bind (run · us) := by
  induction ts generalizing r with
  | nil => rfl
  | cons t ts ih =>
    rw [List.cons_append, run, run, Option.bind_assoc]
    exact congrArg (Option.bind _) (funext ih)

/-- Where a value has to come, none has just ended. -/
theorem getLast?_of_run (h : run r ts = some (.value outer)) (d : Datum) :
    ts.getLast? ≠ some (.scalar d) := by
  intro hlast
  obtain ⟨front, rfl⟩ := List.getLast?_eq_some_iff.1 hlast
  rw [run_append] at h
  obtain ⟨r', -, hstep⟩ := Option.bind_eq_some_iff.1 h
  have hclose : ∀ up, close d up ≠ .value outer := fun up => by
    rcases up with _ | ⟨frame, up⟩
    · nofun
    · cases frame <;> nofun
  cases r' <;> simp [run, step, enter, hclose] at hstep

/-- What has been read, if it has ended. -/
def value? : Reader → Option Datum
  | .done d => some d
  | _ => none

theorem done_of_value? {d : Datum} (h : r.value? = some d) : r = .done d := by
  cases r with
  | done d' => rw [Option.some.inj h]
  | _ => exact absurd h nofun

theorem ofTokens?_eq (ts : List Token) : ofTokens? ts = (run (.value []) ts).bind value? := by
  unfold ofTokens?
  rcases run (.value []) ts with _ | r
  · rfl
  · cases r <;> rfl

end Reader

/-! ## A literal in a document -/

/-- The beginning of a document after which a value has to come, with lists and tables open. -/
def Awaits (s : List Symbol) (outer : List Frame) : Prop :=
  ∃ ts, Token.scan? s = some ts ∧ Reader.run (.value []) ts = some (.value outer)

namespace Awaits

variable {before after : List Symbol} {outer : List Frame}

theorem ofSymbols?_eq (h : Awaits before outer) (hafter : Ends after) (n : Literal) :
    ofSymbols? (before ++ (n.text.map some ++ after)) = (Token.scan? after).bind fun ts =>
      (Reader.run (.close n.datum outer) ts).bind Reader.value? := by
  obtain ⟨front, hfront, hrun⟩ := h
  rw [ofSymbols?, Token.scan?_append hfront (Reader.getLast?_of_run hrun),
    Token.scan?_number n.number?_text hafter, Option.map_map, Option.bind_map]
  refine congrArg (Option.bind _) (funext fun ts => ?_)
  rw [Function.comp_apply, Function.comp_apply, Reader.ofTokens?_eq, Reader.run_append, hrun]
  rfl

theorem exists_run (h : Awaits before outer) (hafter : Ends after) {n : Literal} {d : Datum}
    (hn : ofSymbols? (before ++ (n.text.map some ++ after)) = some d) :
    ∃ ts, Token.scan? after = some ts ∧ Reader.run (.close n.datum outer) ts = some (.done d) := by
  rw [h.ofSymbols?_eq hafter] at hn
  obtain ⟨ts, hts, hn⟩ := Option.bind_eq_some_iff.1 hn
  obtain ⟨r, hr, hd⟩ := Option.bind_eq_some_iff.1 hn
  exact ⟨ts, hts, by rw [hr, Reader.done_of_value? hd]⟩

/-- A literal that is an item of the outermost list can be put in the place of another. -/
theorem exists_items {items : List Datum} (h : Awaits before [.list items]) (hafter : Ends after)
    {n : Literal} {d : Datum} (hn : ofSymbols? (before ++ (n.text.map some ++ after)) = some d) :
    ∃ more, ∀ m : Literal, ofSymbols? (before ++ (m.text.map some ++ after)) =
      some (.list (items.reverse ++ m.datum :: more)) := by
  obtain ⟨ts, hts, hrun⟩ := h.exists_run hafter hn
  obtain ⟨more, hmore⟩ := Reader.run_item hrun
  refine ⟨more, fun m => ?_⟩
  have hm := hmore (m.datum :: items)
  rw [List.reverse_cons, List.append_assoc] at hm
  rw [h.ofSymbols?_eq hafter, hts, Option.bind_some]
  exact congrArg (Option.bind · Reader.value?) hm

/-- A literal that is a field of the outermost table can be put in the place of another. -/
theorem exists_fields {fields : List (Option String × Datum)} {name : Option String}
    (h : Awaits before [.table fields name]) (hafter : Ends after) {n : Literal} {d : Datum}
    (hn : ofSymbols? (before ++ (n.text.map some ++ after)) = some d) :
    ∃ more, ∀ m : Literal, ofSymbols? (before ++ (m.text.map some ++ after)) =
      some (.table (fields.reverse ++ (name, m.datum) :: more)) := by
  obtain ⟨ts, hts, hrun⟩ := h.exists_run hafter hn
  obtain ⟨more, hmore⟩ := Reader.run_field hrun
  refine ⟨more, fun m => ?_⟩
  have hm := hmore ((name, m.datum) :: fields)
  rw [List.reverse_cons, List.append_assoc] at hm
  rw [h.ofSymbols?_eq hafter, hts, Option.bind_some]
  exact congrArg (Option.bind · Reader.value?) hm

end Awaits

end CameraFleet.Json
