import Mathlib.Tactic.Common
import CameraFleet.Proofs.Http.Header
import CameraFleet.Proofs.Text.Split

/-!
# Policies for other sites as they are built and told

Methods and header names are tokens, which have no comma, so a header that lists them is read back
item by item (`Headers.items_listHeader`), and the answer to a question about what is allowed lists
all that the policy has (`Cors.items_methods`, `Cors.items_headers`). A policy can always be built,
and is the one that answers are given by (`Cors.build?_eq`).
-/

namespace CameraFleet

namespace Text

variable {sep : Char}

/-- Pieces without the separator are found again between the separators. -/
theorem splitOn_intercalate {pieces : List String} (hne : pieces ≠ [])
    (h : ∀ s ∈ pieces, sep ∉ s.toList) :
    (splitOn sep ((String.singleton sep).intercalate pieces).toList).map String.ofList =
      pieces := by
  have hapart : ∀ cs ∈ pieces.map String.toList, sep ∉ cs := by
    simpa only [List.forall_mem_map] using h
  rw [String.toList_intercalate, String.toList_singleton, splitOn_eq,
    List.splitOn_intercalate sep hapart (by simpa using hne), List.map_map]
  simp

theorem lower_ne_empty {s : String} (h : s ≠ "") : lower s ≠ "" := by
  rw [Ne, ← String.toList_inj, lower, String.toList_ofList, String.toList_empty,
    List.map_eq_nil_iff, ← String.toList_empty, String.toList_inj]
  exact h

end Text

namespace Settings

/-! ## Wildcards -/

theorem Cors.hasWildcard_eq_false_iff {c : Cors} :
    c.hasWildcard = false ↔ ∀ o ∈ c.origins, Text.trim o ≠ "*" := by
  simp [hasWildcard]

theorem Cors.star_not_mem {c : Cors} (h : c.hasWildcard = false) : "*" ∉ c.origins := fun hm =>
  Cors.hasWildcard_eq_false_iff.1 h "*" hm (by decide +kernel)

end Settings

namespace Http

/-! ## Lists in headers -/

/-- The items that the headers with a name list, with commas between them. -/
def Headers.items (hs : Headers) (name : String) : List String :=
  (hs.filter fun h => Text.lower h.1 = name).flatMap fun h =>
    (Text.splitOn ',' h.2.toList).map String.ofList

section Items

variable {hs hs' : Headers} {name : String}

theorem Headers.items_append (hs hs' : Headers) (name : String) :
    items (hs ++ hs') name = items hs name ++ items hs' name := by
  simp only [items, List.filter_append, List.flatMap_append]

theorem Headers.items_of_absent (h : ∀ x ∈ hs, Text.lower x.1 ≠ name) : items hs name = [] := by
  have hnone : hs.filter (fun x => Text.lower x.1 = name) = [] := by
    simpa [List.filter_eq_nil_iff] using h
  rw [items, hnone, List.flatMap_nil]

theorem Headers.items_of_ne (h : ∀ x ∈ hs, x.1 ∈ sentNames ∧ x.1 ≠ name) : items hs name = [] :=
  items_of_absent fun x hx => by
    rw [lower_of_sent (h x hx).1]
    exact (h x hx).2

/-- A text that can be told from others in a list. -/
def IsItem (s : String) : Prop := s ≠ "" ∧ ',' ∉ s.toList

theorem Headers.items_listHeader (hname : Text.lower name = name) {values : List String}
    (h : ∀ s ∈ values, IsItem s) :
    items (Cors.listHeader name (",".intercalate values)) name = values := by
  rcases values with _ | ⟨s, rest⟩
  · rfl
  · have hitems : (Text.splitOn ',' (",".intercalate (s :: rest)).toList).map String.ofList =
        s :: rest :=
      Text.splitOn_intercalate (List.cons_ne_nil s rest) fun s hs => (h s hs).2
    have hne : ",".intercalate (s :: rest) ≠ "" := by
      intro hempty
      rw [hempty] at hitems
      exact (h s List.mem_cons_self).1 (List.cons.inj hitems).1.symm
    simpa [Cors.listHeader, String.isEmpty_iff, hne, items, hname] using hitems

end Items

/-! ## Tokens -/

theorem isItem_of_isMethod {s : String} (h : isMethod s) : IsItem s := by
  simp only [isMethod, Bool.and_eq_true, Bool.not_eq_true', List.all_eq_true] at h
  exact ⟨by simpa using h.1, fun hc => absurd (h.2 ',' hc) (by decide)⟩

theorem isMethod_of_isHeaderName {s : String} (h : isHeaderName s) : isMethod s := by
  simp only [isHeaderName, Bool.and_eq_true] at h
  simp only [isMethod, h.1.1, h.2, Bool.and_self]

theorem IsItem.lower {s : String} (h : IsItem s) : IsItem (Text.lower s) := by
  refine ⟨Text.lower_ne_empty h.1, fun hc => ?_⟩
  rw [Text.lower, String.toList_ofList, List.mem_map] at hc
  obtain ⟨c, hmem, hc⟩ := hc
  exact h.2 (Text.eq_of_toLower hc (by decide) ▸ hmem)

namespace Cors

/-! ## What other sites are told to be allowed -/

variable {p : Policy} {origin : Option String} {name : String}

theorem items_originHeaders (hvary : "vary" ≠ name)
    (horigin : "access-control-allow-origin" ≠ name) :
    Headers.items (originHeaders p origin) name = [] := by
  refine Headers.items_of_ne fun x hx => ?_
  simp only [originHeaders, List.mem_cons, Option.mem_toList, Option.map_eq_some_iff] at hx
  rcases hx with rfl | ⟨v, -, rfl⟩
  · exact ⟨by decide, hvary⟩
  · exact ⟨by simp [Headers.sentNames], horigin⟩

theorem items_listHeader_other (own : String) (hown : own ∈ Headers.sentNames) (hne : own ≠ name)
    (value : String) : Headers.items (listHeader own value) name = [] := by
  refine Headers.items_of_ne fun x hx => ?_
  unfold listHeader at hx
  split_ifs at hx
  · simp at hx
  · rw [List.mem_singleton.1 hx]
    exact ⟨hown, hne⟩

theorem items_methods (c : Settings.Cors) (origin : Option String) :
    Headers.items (preflightHeaders (ofSettings c) origin) "access-control-allow-methods" =
      c.methods.filter isMethod := by
  have hitems : ∀ s ∈ c.methods.filter isMethod, IsItem s := fun s hs =>
    isItem_of_isMethod (List.mem_filter.1 hs).2
  rw [preflightHeaders, Headers.items_append, Headers.items_append,
    items_originHeaders (by decide) (by decide), List.nil_append,
    items_listHeader_other "access-control-allow-headers" (by decide) (by decide),
    List.append_nil]
  exact Headers.items_listHeader (Headers.lower_of_sent (by decide)) hitems

theorem items_headers (c : Settings.Cors) (origin : Option String) :
    Headers.items (preflightHeaders (ofSettings c) origin) "access-control-allow-headers" =
      (c.headers.filter isHeaderName).map Text.lower := by
  have hitems : ∀ s ∈ (c.headers.filter isHeaderName).map Text.lower, IsItem s := by
    intro s hs
    obtain ⟨t, ht, rfl⟩ := List.mem_map.1 hs
    exact (isItem_of_isMethod (isMethod_of_isHeaderName (List.mem_filter.1 ht).2)).lower
  rw [preflightHeaders, Headers.items_append, Headers.items_append,
    items_originHeaders (by decide) (by decide), List.nil_append,
    items_listHeader_other "access-control-allow-methods" (by decide) (by decide),
    List.nil_append]
  exact Headers.items_listHeader (Headers.lower_of_sent (by decide)) hitems

/-! ## Building -/

/-- Outside the development mode the settings list what is allowed. -/
theorem policyOf_closed {s : Settings} (hdev : s.devMode = false) :
    policyOf s = ofSettings s.cors := by
  rw [policyOf, hdev, if_neg (by simp)]

/-- The origins can always be built: a `*` among them would have been the wildcard. -/
theorem buildOrigins?_eq (c : Settings.Cors) : buildOrigins? c = some (originsOf c) := by
  unfold buildOrigins? originsOf
  dsimp only
  cases hw : c.hasWildcard with
  | true => simp
  | false =>
    have hstar : "*" ∉ c.origins.filter isHeaderValue := fun h =>
      Settings.Cors.star_not_mem hw (List.mem_filter.1 h).1
    by_cases hu : c.origins.filter isHeaderValue = []
    · simp only [hu, Bool.false_eq_true, or_true, ↓reduceIte]
    · simp only [hu, Origins.ofList?, if_neg hstar, Bool.false_eq_true, or_self, ↓reduceIte]

/-- A policy can always be built, and is the one that answers are given by. -/
theorem build?_eq (s : Settings) : build? s = some (policyOf s) := by
  unfold build? policyOf
  split_ifs
  · rfl
  · rw [buildOrigins?_eq]
    rfl

end Cors

end Http

end CameraFleet
