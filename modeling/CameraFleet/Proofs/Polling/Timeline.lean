import CameraFleet.Polling.Timeline
import CameraFleet.Proofs.Polling.Runs

/-!
# Timelines make runs

When the clock of a timeline is moved on, its loop goes through a run, and no event up to the new
time is left over (`run_advance`): each event of its own takes something from what can still happen
up to a time (`Timeline.ahead`), and the bound on the number of events covers all of that. So a
loop on a timeline is always one that a run has led to (`Reached.run`).
-/

namespace CameraFleet.Polling

namespace Timeline

variable {t : Timeline} {time last : Nat} {event : Event}

/-- No event that comes of itself is overdue. -/
def IsTimely (t : Timeline) : Prop :=
  ∀ time event, t.next? = some (time, event) → t.now ≤ time

/-- No event comes of itself up to a time. -/
def IsQuiet (t : Timeline) (last : Nat) : Prop :=
  ∀ time event, t.next? = some (time, event) → last < time

/-- How near a loop is to the end of the wait behind its next fetch. -/
def rank (l : Loop) : Nat :=
  match l.phase with
  | .fetching _ => 1
  | .due _ => 2
  | .waiting _ => 3
  | .stopped => 0

/-- A bound on the events that still come of themselves up to a time. -/
def ahead (t : Timeline) (last : Nat) : Nat :=
  match t.next? with
  | some (time, _) =>
    if time ≤ last then 3 * (last - time) + rank t.loop + 2 * t.loop.refreshKept.toNat else 0
  | none => 0

/-- The timeline after its next event. -/
def follow (t : Timeline) (time : Nat) (event : Event) : Timeline :=
  { t with now := time }.happen event

theorem follow_eq (h : t.next? = some (time, event)) : ∃ l, t.loop.step? time event = some l ∧
    t.follow time event = ⟨time, l, t.repliesAfter event, t.fallback⟩ := by
  have hstep : ∃ l, t.loop.step? time event = some l := by
    unfold next? at h
    split at h <;> cases h <;> simp [Loop.step?, Loop.deadline?, *]
  obtain ⟨l, hl⟩ := hstep
  exact ⟨l, hl, by simp only [follow, happen, hl]; rfl⟩

theorem interval_follow (h : t.next? = some (time, event)) :
    (t.follow time event).loop.interval = t.loop.interval := by
  obtain ⟨l, hl, hfollow⟩ := follow_eq h
  rw [hfollow]
  exact (Loop.step?_eq_some hl).1.interval_eq

/-- An event leaves less to come: the end of a fetch is nearer to the next wait than its start,
and an interval is longer than no time. -/
theorem ahead_follow_lt (hinterval : 0 < t.loop.interval) (h : t.next? = some (time, event))
    (hle : time ≤ last) : (t.follow time event).ahead last < t.ahead last := by
  have hahead : t.ahead last =
      3 * (last - time) + rank t.loop + 2 * t.loop.refreshKept.toNat := by
    simp only [ahead, h, hle, if_true]
  obtain ⟨l, hl, hfollow⟩ := follow_eq h
  rw [hahead, hfollow]
  cases (Loop.step?_eq_some hl).1 with
  | start hphase =>
    simp only [ahead, next?, Loop.startFetch, rank, hphase]
    split_ifs <;> omega
  | resolve hphase outcome =>
    simp only [ahead, next?, Loop.endFetch, rank, hphase]
    rcases t.loop.refreshKept with _ | _ <;> simp <;> split_ifs <;> omega
  | elapse hphase hnow =>
    simp only [ahead, next?, rank, hphase]
    split_ifs
    omega
  | refresh | acknowledge | stop =>
    unfold next? at h
    split at h <;> simp at h

theorem isTimely_of_phase {now : Nat} (h : t.now = now)
    (hphase : t.loop.phase = .due now ∨ t.loop.phase = .fetching now ∨
      t.loop.phase = .waiting now) : t.IsTimely := by
  intro time event hnext
  unfold next? at hnext
  rcases hphase with hphase | hphase | hphase <;> rw [hphase] at hnext <;>
    obtain ⟨rfl, -⟩ := Prod.mk.inj (Option.some.inj hnext) <;> omega

theorem isTimely_follow (h : t.next? = some (time, event)) : (t.follow time event).IsTimely := by
  obtain ⟨l, hl, hfollow⟩ := follow_eq h
  rw [hfollow]
  refine isTimely_of_phase rfl ?_
  cases (Loop.step?_eq_some hl).1 with
  | start => exact Or.inr (Or.inl rfl)
  | resolve hphase outcome =>
    by_cases hkept : t.loop.refreshKept = true
    · exact Or.inl (if_pos hkept)
    · exact Or.inr (Or.inr (if_neg hkept))
  | elapse => exact Or.inl rfl
  | refresh | acknowledge | stop =>
    unfold next? at h
    split at h <;> simp at h

theorem isQuiet_of_ahead_eq_zero (h : t.ahead last = 0) : t.IsQuiet last := by
  intro time event hnext
  by_contra hle
  rw [ahead, hnext] at h
  simp only [if_pos (Nat.le_of_not_lt hle)] at h
  have hrank : rank t.loop = 0 := by omega
  unfold next? at hnext
  unfold rank at hrank
  split at hnext <;> simp_all

/-- Where the bound on the events covers what lies ahead, all of that happens. -/
theorem run_runUntil {count : Nat} (hinterval : 0 < t.loop.interval) (ht : t.IsTimely)
    (hnow : t.now ≤ last) (hcount : t.ahead last ≤ count) :
    (∃ events time, time ≤ last ∧ Run t.loop t.now events (runUntil count last t).loop time) ∧
      (runUntil count last t).IsQuiet last := by
  induction count generalizing t with
  | zero =>
    exact ⟨⟨[], t.now, hnow, .nil _ _⟩, isQuiet_of_ahead_eq_zero (Nat.le_zero.1 hcount)⟩
  | succ count ih =>
    unfold runUntil
    rcases hnext : t.next? with _ | ⟨time, event⟩
    · refine ⟨⟨[], t.now, hnow, .nil _ _⟩, fun time event h => ?_⟩
      rw [hnext] at h
      simp at h
    · simp only
      split_ifs with hle
      · obtain ⟨l, hl, hfollow⟩ := follow_eq hnext
        have hlt := ahead_follow_lt hinterval hnext hle
        obtain ⟨⟨events, last', hlast, hrun⟩, hquiet⟩ := ih (t := t.follow time event)
          (by rwa [interval_follow hnext]) (isTimely_follow hnext)
          (by rw [hfollow]; exact hle) (by omega)
        rw [congrArg Timeline.loop hfollow, congrArg Timeline.now hfollow] at hrun
        exact ⟨⟨(time, event) :: events, last', hlast, .cons (ht _ _ hnext) hl hrun⟩, hquiet⟩
      · refine ⟨⟨[], t.now, hnow, .nil _ _⟩, fun time' event' h => ?_⟩
        rw [hnext] at h
        obtain ⟨rfl, -⟩ := Prod.mk.inj (Option.some.inj h)
        exact Nat.lt_of_not_le hle

theorem ahead_le_eventBound (ht : t.IsTimely) (span : Nat) :
    t.ahead (t.now + span) ≤ eventBound span := by
  have hkept : t.loop.refreshKept.toNat ≤ 1 := Bool.toNat_le _
  have hrank : rank t.loop ≤ 3 := by
    unfold rank
    split <;> omega
  unfold ahead eventBound
  rcases hnext : t.next? with _ | ⟨time, event⟩
  · exact Nat.zero_le _
  · have := ht time event hnext
    simp only
    split_ifs <;> omega

/-- Moving the clock on is a run of the loop, which leaves over no event up to the new time. -/
theorem run_advance (hinterval : 0 < t.loop.interval) (ht : t.IsTimely) (span : Nat) :
    (∃ events time, time ≤ (t.advance span).now ∧
      Run t.loop t.now events (t.advance span).loop time) ∧
      (t.advance span).IsQuiet (t.advance span).now :=
  run_runUntil hinterval ht (Nat.le_add_right t.now span) (ahead_le_eventBound ht span)

theorem IsQuiet.isTimely (h : t.IsQuiet t.now) : t.IsTimely :=
  fun time event hnext => Nat.le_of_lt (h time event hnext)

/-! ## Calls -/

/-- The timelines that begin at time 0, move on, and are called from outside. -/
inductive Reached (interval : Nat) (replies : List Reply) (fallback : Reply) : Timeline → Prop where
  | begin : Reached interval replies fallback (.begin interval replies fallback)
  | advance {t : Timeline} (h : Reached interval replies fallback t) (span : Nat) :
    Reached interval replies fallback (t.advance span)
  | call {t : Timeline} (h : Reached interval replies fallback t) {event : Event}
    (hevent : event = .refresh ∨ event = .acknowledge ∨ event = .stop) :
    Reached interval replies fallback (t.happen event)

/-- A call is never late, and leaves the phase, makes a fetch due, or stops the loop. -/
theorem step?_call (ht : t.IsTimely)
    (hevent : event = .refresh ∨ event = .acknowledge ∨ event = .stop) :
    ∃ l, t.loop.step? t.now event = some l ∧
      (l.phase = t.loop.phase ∨ l.phase = .due t.now ∨ l.phase = .stopped) := by
  have hlate : t.loop.deadline?.any (· < t.now) = false := by
    rcases hphase : t.loop.phase with since | since | since | _
    · have hnext : t.next? = some (since, .start) := by simp only [next?, hphase]
      simpa [Loop.deadline?, hphase] using ht _ _ hnext
    · simp [Loop.deadline?, hphase]
    · have hnext : t.next? = some (since + t.loop.interval, .elapse) := by simp only [next?, hphase]
      simpa [Loop.deadline?, hphase] using ht _ _ hnext
    · simp [Loop.deadline?, hphase]
  rcases hevent with rfl | rfl | rfl
  · refine ⟨t.loop.refresh t.now, by simp [Loop.step?, hlate], ?_⟩
    by_cases hwaiting : ∃ since, t.loop.phase = .waiting since
    · obtain ⟨since, hphase⟩ := hwaiting
      rw [Loop.refresh_of_waiting hphase]
      exact Or.inr (Or.inl rfl)
    · push Not at hwaiting
      rw [Loop.refresh_of_not_waiting hwaiting]
      exact Or.inl rfl
  · exact ⟨t.loop.acknowledge, by simp [Loop.step?, hlate], Or.inl rfl⟩
  · exact ⟨t.loop.stop, by simp [Loop.step?, hlate], Or.inr (Or.inr rfl)⟩

theorem isTimely_call {l : Loop} (ht : t.IsTimely)
    (hphase : l.phase = t.loop.phase ∨ l.phase = .due t.now ∨ l.phase = .stopped)
    (hinterval : l.interval = t.loop.interval) : { t with loop := l }.IsTimely := by
  rcases hphase with hphase | hphase | hphase
  · intro time event hnext
    refine ht time event ?_
    rw [← hnext]
    simp only [next?, hphase, hinterval, reply]
  · exact isTimely_of_phase rfl (Or.inl hphase)
  · intro time event hnext
    simp [next?, hphase] at hnext

theorem happen_eq {l : Loop} (hl : t.loop.step? t.now event = some l)
    (hevent : event = .refresh ∨ event = .acknowledge ∨ event = .stop) :
    t.happen event = { t with loop := l } := by
  rcases hevent with rfl | rfl | rfl <;> simp only [happen, hl, repliesAfter]

/-- A loop on a timeline is one that a run has led to, up to the time of its clock. -/
theorem Reached.run {interval : Nat} {replies : List Reply} {fallback : Reply}
    (h : Reached interval replies fallback t) (hinterval : 0 < interval) :
    t.loop.interval = interval ∧ t.IsTimely ∧
      ∃ events last, last ≤ t.now ∧ Run (.begin interval) 0 events t.loop last := by
  induction h with
  | begin => exact ⟨rfl, isTimely_of_phase rfl (Or.inl rfl), [], 0, Nat.le_refl 0, .nil _ _⟩
  | advance h span ih =>
    obtain ⟨hi, ht, events, last, hlast, hrun⟩ := ih
    obtain ⟨⟨events', last', hlast', hrun'⟩, hquiet⟩ := run_advance (hi ▸ hinterval) ht span
    obtain ⟨last'', hle, hrun''⟩ := hrun'.of_le hlast
    exact ⟨hrun'.interval_eq.trans hi, hquiet.isTimely, events ++ events', last'',
      Nat.le_trans hle hlast', hrun.append hrun''⟩
  | call h hevent ih =>
    obtain ⟨hi, ht, events, last, hlast, hrun⟩ := ih
    obtain ⟨l, hl, hphase⟩ := step?_call ht hevent
    have hi' := (Loop.step?_eq_some hl).1.interval_eq
    rw [happen_eq hl hevent]
    exact ⟨hi'.trans hi, isTimely_call ht hphase hi', events ++ [(_, _)], _, Nat.le_refl _,
      hrun.append (.cons hlast hl (.nil _ _))⟩

end Timeline

end CameraFleet.Polling
