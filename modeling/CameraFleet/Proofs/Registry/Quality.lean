import CameraFleet.Proofs.QualityRange
import CameraFleet.Proofs.Registry.Runs

/-!
# Qualities under the policies that enforce ranges

A patch that sets a quality leaves one that its active format allows: the quality asked for, or
the legal one nearest to it (`resolveQuality_ok`). A patch that sets none keeps the quality, so
only a switch of the format makes it illegal (`qualityInRange?_patched`). Over a run this means
that a quality once set is lost to its range by such a switch alone
(`exists_switch_of_run`, `quality_run`).
-/

namespace CameraFleet

namespace Camera

variable {c : Camera}

theorem qualityInRange?_eq_some_iff {b : Bool} : c.qualityInRange? = some b ↔
    ∃ q r, c.quality = some q ∧ c.active?.bind ImageFormat.quality = some r ∧
      r.contains q = b := by
  rcases hq : c.quality with _ | q
  · simp [qualityInRange?, hq]
  · rcases ha : c.active? with _ | f
    · simp [qualityInRange?, hq, ha]
    · rcases hr : f.quality with _ | r <;> simp [qualityInRange?, hq, ha, hr]

end Camera

namespace Registry

variable {policy : Policy} {options : Options} {index k : Ident} {c d : Camera} {p : Patch}
  {q v : UInt32}

/-! ## One patch -/

/-- What a policy that is not permissive stores: a legal quality. -/
theorem resolveQuality_ok (hpolicy : policy ≠ .permissive)
    (h : resolveQuality policy c q = .ok v) :
    (v = q ∧ ∀ r, c.active?.bind ImageFormat.quality = some r → r.contains q = true) ∨
      ∃ r, c.active?.bind ImageFormat.quality = some r ∧ r.contains q = false ∧
        policy = .clamp ∧ v = r.nearest q := by
  unfold resolveQuality at h
  split at h
  · rename_i hr
    simp only [Except.ok.injEq] at h
    exact Or.inl ⟨h.symm, by simp [hr]⟩
  · rename_i r hr
    split_ifs at h with hq
    · simp only [Except.ok.injEq] at h
      refine Or.inl ⟨h.symm, fun r' hr' => ?_⟩
      rw [hr, Option.some.injEq] at hr'
      exact hr' ▸ hq
    · split at h
      · exact absurd rfl hpolicy
      · simp at h
      · simp only [Except.ok.injEq] at h
        exact Or.inr ⟨r, hr, by simpa using hq, rfl, h.symm⟩

theorem activeFormat_patched (h : patched options index c p = .ok d) :
    d.activeFormat = p.format.getD c.activeFormat := by
  obtain ⟨-, e, he, rfl⟩ := patched_ok h
  obtain ⟨stored, rfl, -⟩ := setQuality_ok he
  rw [Camera.activeFormat_refreshed]
  rfl

theorem quality_patched_of_none (h : patched options index c p = .ok d) (hp : p.quality = none) :
    d.quality = c.quality := by
  obtain ⟨-, e, he, rfl⟩ := patched_ok h
  obtain ⟨stored, rfl, hkeep, -⟩ := setQuality_ok he
  rw [Camera.quality_refreshed]
  exact hkeep hp

/-- A quality is resolved against the format that is active after the patch. -/
theorem quality_patched_of_some (h : patched options index c p = .ok d) (hp : p.quality = some q) :
    ∃ v, resolveQuality options.policy d q = .ok v ∧ d.quality = some v := by
  have hformats := (sameDevice_patched h).formats
  have hindex := (sameDevice_patched h).index
  have hactive := activeFormat_patched h
  obtain ⟨-, e, he, rfl⟩ := patched_ok h
  obtain ⟨stored, rfl, -, hset⟩ := setQuality_ok he
  obtain ⟨v, hv, rfl⟩ := hset q hp
  refine ⟨v, ?_, Camera.quality_refreshed⟩
  rw [← hv]
  unfold resolveQuality
  rw [Camera.active?_congr (d := withFormat c p.format) hformats hactive, hindex]
  rfl

/-- While the format stays, so does the verdict on the quality. -/
theorem qualityInRange?_patched (h : patched options index c p = .ok d) (hp : p.quality = none)
    (hactive : d.activeFormat = c.activeFormat) : d.qualityInRange? = c.qualityInRange? := by
  unfold Camera.qualityInRange?
  rw [quality_patched_of_none h hp, Camera.active?_congr (sameDevice_patched h).formats hactive]

/-- A quality is stored as it was asked for where no range of the active format speaks against
it; where one does, the policy is to clamp, and the legal quality nearest to it is stored. -/
theorem stored_of_patched (hpolicy : options.policy ≠ .permissive)
    (hc : c.IsSettled options.preview) (h : patched options index c p = .ok d)
    (hp : p.quality = some q) : ∃ f, d.active? = some f ∧
      ((∀ r, f.quality = some r → r.contains q = true) → d.quality = some q) ∧
      (∀ r, f.quality = some r → r.contains q = false → options.policy = .clamp ∧
        ∃ v, r.clamp? q = some v ∧ r.contains v = true ∧ d.quality = some v) := by
  obtain ⟨-, hsound, f, hf, -⟩ := (Camera.flaw?_eq_none_iff d).1 (isSettled_patched hc h).sound
  obtain ⟨v, hv, hd⟩ := quality_patched_of_some h hp
  have hbind : d.active?.bind ImageFormat.quality = f.quality := by rw [hf, Option.bind_some]
  refine ⟨f, hf, fun hlegal => ?_, fun r hr hillegal => ?_⟩
  · rw [← hbind] at hlegal
    rw [resolveQuality_of_legal hlegal, Except.ok.injEq] at hv
    rw [hd, hv]
  · rcases resolveQuality_ok hpolicy hv with ⟨-, hlegal⟩ | ⟨r', hr', -, hclamp, rfl⟩
    · rw [hlegal r (hbind.trans hr)] at hillegal
      simp at hillegal
    · rw [hbind, hr, Option.some.injEq] at hr'
      subst hr'
      have hflaw := hsound f (Camera.format?_some hf).1 r hr
      exact ⟨hclamp, _, QualityRange.clamp?_of_flaw? hflaw q,
        QualityRange.contains_nearest (QualityRange.min_le_max_of_flaw? hflaw) q, hd⟩

theorem qualityInRange?_of_set (hpolicy : options.policy ≠ .permissive)
    (hc : c.IsSettled options.preview) (h : patched options index c p = .ok d)
    (hp : p.quality = some q) : d.qualityInRange? ≠ some false := by
  intro hfalse
  obtain ⟨f, hf, hlegal, hillegal⟩ := stored_of_patched hpolicy hc h hp
  obtain ⟨v, r, hv, hr, hcontains⟩ := Camera.qualityInRange?_eq_some_iff.1 hfalse
  rw [hf, Option.bind_some] at hr
  rcases hq : r.contains q with _ | _
  · obtain ⟨-, w, -, hw, hdw⟩ := hillegal r hr hq
    rw [hv, Option.some.injEq] at hdw
    rw [hdw, hw] at hcontains
    simp at hcontains
  · have hdq := hlegal fun r' hr' => by
      rw [hr, Option.some.injEq] at hr'
      exact hr' ▸ hq
    rw [hv, Option.some.injEq] at hdq
    rw [hdq, hq] at hcontains
    simp at hcontains

/-! ## Runs -/

variable {r : Registry} {seeds : List Camera}

/-- The calls `before` are followed by one that sets the quality of camera `k`. -/
def SetsQuality (r : Registry) (before : List (Ident × Patch)) (k : Ident) (p : Patch) : Prop :=
  p.quality.isSome ∧ ∃ d, ((r.run before).apply k p).1 = .ok d

/-- Of the calls that set the quality of a camera one is the last. -/
theorem exists_last_setsQuality (n : Nat) : ∀ {before after : List (Ident × Patch)} {p : Patch},
    after.length ≤ n → SetsQuality r before k p → ∃ before' p' after',
      before ++ (k, p) :: after = before' ++ (k, p') :: after' ∧ SetsQuality r before' k p' ∧
        ∀ mid q rest, after' = mid ++ (k, q) :: rest →
          ¬ SetsQuality r (before' ++ (k, p') :: mid) k q := by
  induction n with
  | zero =>
    intro before after p hlen hset
    obtain rfl := List.length_eq_zero_iff.1 (Nat.le_zero.1 hlen)
    exact ⟨before, p, [], rfl, hset, fun mid q rest h => by simp at h⟩
  | succ n ih =>
    intro before after p hlen hset
    by_cases hlast : ∃ mid q rest, after = mid ++ (k, q) :: rest ∧
        SetsQuality r (before ++ (k, p) :: mid) k q
    · obtain ⟨mid, q, rest, rfl, hq⟩ := hlast
      simp only [List.length_append, List.length_cons] at hlen
      have hshort : rest.length ≤ n := by omega
      obtain ⟨before', p', after', h, hset', hno⟩ := ih hshort hq
      refine ⟨before', p', after', ?_, hset', hno⟩
      rw [← h, List.append_assoc, List.cons_append]
    · push Not at hlast
      exact ⟨before, p, after, rfl, hset, hlast⟩

/-- A quality that is legal before a run and illegal behind it, with none set in between, was lost
to a switch of the format. -/
theorem exists_switch_of_run (k : Ident) : ∀ {after : List (Ident × Patch)} {r : Registry},
    (∀ c, r.get? k = some c → c.qualityInRange? ≠ some false) →
    (∀ mid p rest, after = mid ++ (k, p) :: rest → ¬ SetsQuality r mid k p) →
    ∀ {c : Camera}, (r.run after).get? k = some c → c.qualityInRange? = some false →
    ∃ mid p rest c d, after = mid ++ (k, p) :: rest ∧ p.quality = none ∧
      (r.run mid).get? k = some c ∧ ((r.run mid).apply k p).1 = .ok d ∧
        d.activeFormat ≠ c.activeFormat
  | [], r, hlegal, _, c, hc, hfalse => absurd hfalse (hlegal c hc)
  | (i, p) :: after, r, hlegal, hno, c, hc, hfalse => by
    have hstep : (∀ c, (r.apply i p).2.get? k = some c → c.qualityInRange? ≠ some false) ∨
        ∃ c d, i = k ∧ p.quality = none ∧ r.get? k = some c ∧ (r.apply k p).1 = .ok d ∧
          d.activeFormat ≠ c.activeFormat := by
      by_cases hi : i = k
      · subst hi
        rcases apply_cases r i p with ⟨e, he⟩ | ⟨b, d, hb, hd, happly⟩
        · rw [he]
          exact Or.inl hlegal
        · have hnone : p.quality = none := by
            rcases hq : p.quality with _ | q
            · rfl
            · exact absurd ⟨by simp [hq], d, by rw [run, happly]⟩ (hno [] p after rfl)
          by_cases hactive : d.activeFormat = b.activeFormat
          · refine Or.inl fun d' hd' => ?_
            rw [happly, get?_replace, if_pos rfl, hb, Option.map_some, Option.some.injEq] at hd'
            rw [← hd', qualityInRange?_patched hd hnone hactive]
            exact hlegal b hb
          · exact Or.inr ⟨b, d, rfl, hnone, hb, by rw [happly], hactive⟩
      · left
        rw [get?_apply_of_ne (Ne.symm hi)]
        exact hlegal
    rcases hstep with hlegal' | ⟨b, d, rfl, hnone, hb, hd, hactive⟩
    · have hno' : ∀ mid q rest, after = mid ++ (k, q) :: rest →
          ¬ SetsQuality (r.apply i p).2 mid k q := fun mid q rest h =>
        hno ((i, p) :: mid) q rest (by rw [h, List.cons_append])
      obtain ⟨mid, p', rest, b, d, rfl, hnone, hb, hd, hactive⟩ :=
        exists_switch_of_run k hlegal' hno' hc hfalse
      exact ⟨(i, p) :: mid, p', rest, b, d, rfl, hnone, hb, hd, hactive⟩
    · exact ⟨[], p, after, b, d, rfl, hnone, hb, hd, hactive⟩

/-- Under a policy that enforces ranges each call that sets a quality stores the one asked for
where the active format allows it, or else, with clamping, the one its range is clamped to. If a
quality was ever set on a camera and its quality is illegal now, then behind the last call that
set it a call without a quality switched the format. -/
theorem quality_run {options : Options} (h : ofCameras seeds options = .ok r)
    (hpolicy : options.policy ≠ .permissive) (calls : List (Ident × Patch)) (k : Ident) :
    (∀ p q d t, p.quality = some q → (r.run calls).apply k p = (.ok d, t) →
      t.get? k = some d ∧ d.qualityInRange? ≠ some false ∧ ∃ f, d.active? = some f ∧
        ((∀ range, f.quality = some range → range.contains q = true) → d.quality = some q) ∧
        ∀ range, f.quality = some range → range.contains q = false → options.policy = .clamp ∧
          ∃ v, range.clamp? q = some v ∧ range.contains v = true ∧ d.quality = some v) ∧
    ∀ c, (r.run calls).get? k = some c → c.qualityInRange? = some false →
      (∃ before p after, calls = before ++ (k, p) :: after ∧ SetsQuality r before k p) →
      ∃ before p after, calls = before ++ (k, p) :: after ∧ SetsQuality r before k p ∧
        (∀ mid p' rest, after = mid ++ (k, p') :: rest →
          ¬ SetsQuality r (before ++ (k, p) :: mid) k p') ∧
        ∃ mid p' rest b d, after = mid ++ (k, p') :: rest ∧ p'.quality = none ∧
          (r.run (before ++ (k, p) :: mid)).get? k = some b ∧
          ((r.run (before ++ (k, p) :: mid)).apply k p').1 = .ok d ∧
          d.activeFormat ≠ b.activeFormat := by
  obtain ⟨hr, rfl⟩ := holds_ofCameras h
  have hset : ∀ {calls p q d t}, p.quality = some q → (r.run calls).apply k p = (.ok d, t) →
      ∃ c, c.IsSettled r.options.preview ∧ patched r.options k c p = .ok d ∧
        t.get? k = some d := by
    intro calls p q d t hp happly
    obtain ⟨c, hc, hd, ht⟩ := apply_ok happly
    have hsettled := ((hr.run calls).stored k c ((hr.run calls).get?.1 hc)).2.1
    rw [run_options] at hd hsettled
    exact ⟨c, hsettled, hd, ht⟩
  refine ⟨fun p q d t hp happly => ?_, ?_⟩
  · obtain ⟨c, hc, hd, ht⟩ := hset hp happly
    exact ⟨ht, qualityInRange?_of_set hpolicy hc hd hp, stored_of_patched hpolicy hc hd hp⟩
  · rintro c hc hfalse ⟨before, p, after, rfl, hfirst⟩
    obtain ⟨before, p, after, heq, hlast, hno⟩ :=
      exists_last_setsQuality after.length (Nat.le_refl after.length) hfirst
    refine ⟨before, p, after, heq, hlast, hno, ?_⟩
    obtain ⟨hsome, d, hd⟩ := hlast
    obtain ⟨q, hq⟩ := Option.isSome_iff_exists.1 hsome
    have happly : (r.run before).apply k p = (.ok d, ((r.run before).apply k p).2) :=
      Prod.ext hd rfl
    obtain ⟨b, hb, hpatched, hget⟩ := hset hq happly
    have hrun : ∀ rest, r.run (before ++ (k, p) :: rest) = ((r.run before).apply k p).2.run rest :=
      fun rest => by rw [run_append, run_cons]
    have hlegal : ∀ c, ((r.run before).apply k p).2.get? k = some c →
        c.qualityInRange? ≠ some false := by
      intro c hc
      rw [hget, Option.some.injEq] at hc
      exact hc ▸ qualityInRange?_of_set hpolicy hb hpatched hq
    have hlater : ∀ mid p' rest, after = mid ++ (k, p') :: rest →
        ¬ SetsQuality ((r.run before).apply k p).2 mid k p' := by
      rintro mid p' rest h ⟨hsome, d, hd⟩
      exact hno mid p' rest h ⟨hsome, d, by rw [hrun]; exact hd⟩
    rw [heq, hrun] at hc
    obtain ⟨mid, p', rest, b, d, rfl, hnone, hb, hd, hactive⟩ :=
      exists_switch_of_run k hlegal hlater hc hfalse
    exact ⟨mid, p', rest, b, d, rfl, hnone, by rw [hrun]; exact hb, by rw [hrun]; exact hd,
      hactive⟩

/-- A quality is clamped into the range of the new format; a switch to a format with another range
makes it illegal, and what is refused in between counts for nothing. -/
theorem quality_run_demoFleet : ∃ r, ofCameras DemoFleet.cameras ⟨default, .clamp⟩ = .ok r ∧
    ∃ before p after, [(.number 1, ⟨some (.number 3), some 64⟩), (.number 0, ⟨none, some 70⟩),
        (.number 1, ⟨some (.name "raw"), some 90⟩), (.number 1, ⟨some (.number 2), none⟩)] =
          before ++ (.number 1, p) :: after ∧ SetsQuality r before (.number 1) p ∧
      ∃ mid p' rest b d, after = mid ++ (.number 1, p') :: rest ∧ p'.quality = none ∧
        (r.run (before ++ (.number 1, p) :: mid)).get? (.number 1) = some b ∧
        ((r.run (before ++ (.number 1, p) :: mid)).apply (.number 1) p').1 = .ok d ∧
        d.activeFormat ≠ b.activeFormat := by
  have hset : (ofCameras DemoFleet.cameras ⟨default, .clamp⟩).toOption.map (fun r =>
      ((r.apply (.number 1) ⟨some (.number 3), some 64⟩).1.toOption.bind Camera.quality,
        ((r.run [(.number 1, ⟨some (.number 3), some 64⟩), (.number 0, ⟨none, some 70⟩),
          (.number 1, ⟨some (.name "raw"), some 90⟩),
          (.number 1, ⟨some (.number 2), none⟩)]).get? (.number 1)).map Camera.qualityInRange?)) =
      some (some 60, some (some false)) := by decide +kernel
  rcases h : ofCameras DemoFleet.cameras ⟨default, .clamp⟩ with e | r
  · simp [h, Except.toOption] at hset
  · simp only [h, Except.toOption, Option.map_some, Option.some.injEq, Prod.mk.injEq,
      Option.bind_eq_some_iff, Option.map_eq_some_iff] at hset
    obtain ⟨⟨d, hd, -⟩, c, hc, hfalse⟩ := hset
    have hfirst : SetsQuality r [] (.number 1) ⟨some (.number 3), some 64⟩ := by
      refine ⟨rfl, d, ?_⟩
      change (r.apply _ _).1 = _
      split at hd
      · rename_i d' hd'
        rw [hd', Option.some.inj hd]
      · simp at hd
    obtain ⟨before, p, after, hcalls, hlast, -, hswitch⟩ :=
      (quality_run h (by decide) _ (.number 1)).2 c hc hfalse ⟨[], _, _, rfl, hfirst⟩
    exact ⟨r, rfl, before, p, after, hcalls, hlast, hswitch⟩

end Registry

end CameraFleet
