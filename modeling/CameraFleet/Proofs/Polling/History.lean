import CameraFleet.Proofs.Polling.Runs

/-!
# What a history leaves due

A history leaves a fetch due (`LeavesDue`) at its beginning, and after each fetch when the wait
behind it ends (`WaitEnds`): an interval after the fetch was over, at the first refresh that comes
before, or at once if a refresh came while the fetch was under way. Every phase of a loop is told
by its history in this way (`traced_of_run`).
-/

namespace CameraFleet.Polling

/-- Calls that leave a running loop running are all that happens. -/
def OnlyCalls (events : List (Nat × Event)) : Prop :=
  ∀ e ∈ events, e.2 = .refresh ∨ e.2 = .acknowledge

/-- A refresh is asked for. -/
def Asks (events : List (Nat × Event)) : Prop :=
  ∃ time, (time, .refresh) ∈ events

/-- Only calls happen, and all at one time. -/
structure CallsAt (time : Nat) (events : List (Nat × Event)) : Prop where
  only : OnlyCalls events
  time_eq : ∀ e ∈ events, e.1 = time

/-- The wait behind a fetch that was over at `since` ends at a time, which leaves a fetch due.
`asked` says that a refresh came while the fetch was under way. After its end only the calls
`queued` have come. -/
inductive WaitEnds (interval since : Nat) (asked : Prop) :
    (wait queued : List (Nat × Event)) → (due : Nat) → Prop where
  | skipped {queued : List (Nat × Event)} (hasked : asked) :
    WaitEnds interval since asked queued queued since
  | elapsed {idle queued : List (Nat × Event)} (hasked : ¬ asked) (hidle : OnlyCalls idle)
    (hquiet : ¬ Asks idle) :
    WaitEnds interval since asked (idle ++ (since + interval, .elapse) :: queued) queued
      (since + interval)
  | refreshed {idle queued : List (Nat × Event)} {now : Nat} (hasked : ¬ asked)
    (hidle : OnlyCalls idle) (hquiet : ¬ Asks idle) (hnow : since ≤ now ∧ now ≤ since + interval) :
    WaitEnds interval since asked (idle ++ (now, .refresh) :: queued) queued now

/-- The history leaves a fetch due, at a time, and since then only the calls `queued` have come.
They count as calls while that fetch is under way. -/
inductive LeavesDue (interval : Nat) :
    (history queued : List (Nat × Event)) → (due : Nat) → Prop where
  | first {queued : List (Nat × Event)} (hqueued : CallsAt 0 queued) :
    LeavesDue interval queued queued 0
  | next {before queued during wait queued' : List (Nat × Event)} {start ended due : Nat}
    {outcome : Outcome} (hbefore : LeavesDue interval before queued start)
    (hduring : OnlyCalls during)
    (hwait : WaitEnds interval ended (Asks queued ∨ Asks during) wait queued' due)
    (hqueued : CallsAt due queued') :
    LeavesDue interval
      (before ++ (start, .start) :: (during ++ (ended, .resolve outcome) :: wait)) queued' due

variable {interval now time last since due : Nat} {l l' : Loop} {event : Event}
  {events before after queued wait idle : List (Nat × Event)}

theorem OnlyCalls.concat (h : OnlyCalls events) (hevent : event = .refresh ∨ event = .acknowledge) :
    OnlyCalls (events ++ [(time, event)]) :=
  List.forall_mem_append.2 ⟨h, List.forall_mem_singleton.2 hevent⟩

theorem CallsAt.concat (h : CallsAt time events)
    (hevent : event = .refresh ∨ event = .acknowledge) :
    CallsAt time (events ++ [(time, event)]) :=
  ⟨h.only.concat hevent, List.forall_mem_append.2 ⟨h.time_eq, List.forall_mem_singleton.2 rfl⟩⟩

theorem callsAt_nil (time : Nat) : CallsAt time [] :=
  ⟨fun _ he => absurd he (by simp), fun _ he => absurd he (by simp)⟩

theorem asks_concat : Asks (events ++ [(time, event)]) ↔ Asks events ∨ event = .refresh := by
  simp only [Asks, List.mem_append, List.mem_singleton, Prod.mk.injEq, exists_or]
  constructor
  · rintro (h | ⟨_, -, h⟩)
    · exact Or.inl h
    · exact Or.inr h.symm
  · rintro (h | h)
    · exact Or.inl h
    · exact Or.inr ⟨time, rfl, h.symm⟩

/-! ## Histories that leave a fetch due -/

theorem WaitEnds.concat {asked : Prop} (h : WaitEnds interval since asked wait queued due)
    (e : Nat × Event) : WaitEnds interval since asked (wait ++ [e]) (queued ++ [e]) due := by
  cases h with
  | skipped hasked => exact .skipped hasked
  | elapsed hasked hidle hquiet =>
    rw [List.append_assoc, List.cons_append]
    exact .elapsed hasked hidle hquiet
  | refreshed hasked hidle hquiet hnow =>
    rw [List.append_assoc, List.cons_append]
    exact .refreshed hasked hidle hquiet hnow

theorem LeavesDue.callsAt (h : LeavesDue interval events queued due) : CallsAt due queued := by
  cases h with
  | first hqueued => exact hqueued
  | next _ _ _ hqueued => exact hqueued

theorem LeavesDue.concat (h : LeavesDue interval events queued due)
    (hevent : event = .refresh ∨ event = .acknowledge) :
    LeavesDue interval (events ++ [(due, event)]) (queued ++ [(due, event)]) due := by
  cases h with
  | first hqueued => exact .first (hqueued.concat hevent)
  | next hbefore hduring hwait hqueued =>
    rw [List.append_assoc, List.cons_append, List.append_assoc, List.cons_append]
    exact .next hbefore hduring (hwait.concat _) (hqueued.concat hevent)

/-! ## The phases of a loop -/

/-- The phase of a loop is what its history makes of it. -/
inductive Traced (interval : Nat) (events : List (Nat × Event)) (l : Loop) (last : Nat) : Prop where
  | due {queued : List (Nat × Event)} (hphase : l.phase = .due last)
    (hdue : LeavesDue interval events queued last) (hkept : l.refreshKept = true ↔ Asks queued)
  | fetching {before queued during : List (Nat × Event)} {start : Nat}
    (hphase : l.phase = .fetching start) (hevents : events = before ++ (start, .start) :: during)
    (hdue : LeavesDue interval before queued start) (hduring : OnlyCalls during)
    (hkept : l.refreshKept = true ↔ Asks queued ∨ Asks during)
  | waiting {before queued during idle : List (Nat × Event)} {start ended : Nat}
    {outcome : Outcome} (hphase : l.phase = .waiting ended)
    (hevents : events = before ++ (start, .start) :: (during ++ (ended, .resolve outcome) :: idle))
    (hdue : LeavesDue interval before queued start) (hduring : OnlyCalls during)
    (hasked : ¬ (Asks queued ∨ Asks during)) (hidle : OnlyCalls idle) (hquiet : ¬ Asks idle)
    (hkept : l.refreshKept = false) (hlast : ended ≤ last ∧ last ≤ ended + interval)
  | stopped (hphase : l.phase = .stopped)

theorem not_asks_nil : ¬ Asks [] := fun ⟨_, h⟩ => by simp at h

theorem Traced.of_no_call (hphase : l.phase = .due last) (hdue : LeavesDue interval events [] last)
    (hkept : l.refreshKept = false) : Traced interval events l last :=
  .due hphase hdue (by simp [hkept, not_asks_nil])

theorem Traced.resolve (h : Traced interval events l last) (hphase : l.phase = .fetching since)
    (outcome : Outcome) :
    Traced interval (events ++ [(now, .resolve outcome)]) (l.endFetch now outcome) now := by
  cases h with
  | fetching hphase' hevents hdue hduring hkept =>
    subst hevents
    rw [List.append_assoc, List.cons_append]
    by_cases hk : l.refreshKept = true
    · refine .of_no_call (by simp only [Loop.endFetch, if_pos hk]) ?_ rfl
      exact .next hdue hduring (.skipped (hkept.1 hk)) (callsAt_nil now)
    · exact .waiting (by simp only [Loop.endFetch, if_neg hk]) rfl hdue hduring
        (fun ha => hk (hkept.2 ha)) (callsAt_nil now).only not_asks_nil rfl
        ⟨Nat.le_refl now, Nat.le_add_right now interval⟩
  | _ => simp_all

/-- Outside of a wait a call is noted, and a refresh is kept. -/
theorem Traced.call (h : Traced interval events l last) (hlast : last ≤ now)
    (hdeadline : ∀ deadline, l.deadline? = some deadline → now ≤ deadline)
    (hwaiting : ∀ since, l.phase ≠ .waiting since)
    (hevent : event = .refresh ∨ event = .acknowledge) (hphase : l'.phase = l.phase)
    (hkeeps : l'.refreshKept = true ↔ l.refreshKept = true ∨ event = .refresh) :
    Traced interval (events ++ [(now, event)]) l' now := by
  cases h with
  | due hdue' hdue hkept =>
    obtain rfl : now = last := Nat.le_antisymm (hdeadline _ (by simp [Loop.deadline?, hdue'])) hlast
    refine .due (hphase.trans hdue') (hdue.concat hevent) ?_
    rw [hkeeps, hkept, asks_concat]
  | fetching hfetching hevents hdue hduring hkept =>
    subst hevents
    rw [List.append_assoc, List.cons_append]
    refine .fetching (hphase.trans hfetching) rfl hdue (hduring.concat hevent) ?_
    rw [hkeeps, hkept, asks_concat, or_assoc]
  | waiting hwaits => exact absurd hwaits (hwaiting _)
  | stopped hstopped => exact .stopped (hphase.trans hstopped)

/-- A refresh ends a wait, and is kept otherwise. -/
theorem Traced.refresh (h : Traced interval events l last) (hlast : last ≤ now)
    (hdeadline : ∀ deadline, l.deadline? = some deadline → now ≤ deadline)
    (hinterval : l.interval = interval) :
    Traced interval (events ++ [(now, .refresh)]) (l.refresh now) now := by
  by_cases hwaiting : ∃ since, l.phase = .waiting since
  · obtain ⟨since, hphase⟩ := hwaiting
    have hnow := hdeadline (since + l.interval) (by simp only [Loop.deadline?, hphase])
    rw [Loop.refresh_of_waiting hphase]
    cases h with
    | waiting hphase' hevents hdue hduring hasked hidle hquiet hkept hbounds =>
      obtain rfl := Phase.waiting.inj (hphase.symm.trans hphase')
      subst hevents
      rw [hinterval] at hnow
      rw [List.append_assoc, List.cons_append, List.append_assoc, List.cons_append]
      refine .of_no_call rfl ?_ hkept
      exact .next hdue hduring (.refreshed hasked hidle hquiet ⟨Nat.le_trans hbounds.1 hlast, hnow⟩)
        (callsAt_nil now)
    | _ => simp_all
  · push Not at hwaiting
    rw [Loop.refresh_of_not_waiting hwaiting]
    exact h.call hlast hdeadline hwaiting (Or.inl rfl) rfl (by simp)

theorem Traced.acknowledge (h : Traced interval events l last) (hlast : last ≤ now)
    (hdeadline : ∀ deadline, l.deadline? = some deadline → now ≤ deadline)
    (hinterval : l.interval = interval) :
    Traced interval (events ++ [(now, .acknowledge)]) l.acknowledge now := by
  by_cases hwaiting : ∃ since, l.phase = .waiting since
  · obtain ⟨since, hphase⟩ := hwaiting
    have hnow := hdeadline (since + l.interval) (by simp only [Loop.deadline?, hphase])
    cases h with
    | waiting hphase' hevents hdue hduring hasked hidle hquiet hkept hbounds =>
      obtain rfl := Phase.waiting.inj (hphase.symm.trans hphase')
      subst hevents
      rw [hinterval] at hnow
      rw [List.append_assoc, List.cons_append, List.append_assoc, List.cons_append]
      refine .waiting hphase rfl hdue hduring hasked (hidle.concat (Or.inr rfl)) ?_ hkept
        ⟨Nat.le_trans hbounds.1 hlast, hnow⟩
      simpa [asks_concat] using hquiet
    | _ => simp_all
  · push Not at hwaiting
    exact h.call hlast hdeadline hwaiting (Or.inr rfl) rfl (by simp [Loop.acknowledge])

theorem Traced.step (h : Traced interval events l last) (hlast : last ≤ now)
    (hinterval : l.interval = interval) (hstep : l.step? now event = some l') :
    Traced interval (events ++ [(now, event)]) l' now := by
  obtain ⟨hstepped, hdeadline⟩ := Loop.step?_eq_some hstep
  cases hstepped with
  | start hphase =>
    cases h with
    | due hphase' hdue hkept =>
      obtain rfl : now = last :=
        Nat.le_antisymm (hdeadline _ (by simp [Loop.deadline?, hphase'])) hlast
      refine .fetching rfl rfl hdue (callsAt_nil now).only ?_
      rw [Loop.startFetch, hkept, or_iff_left not_asks_nil]
    | _ => simp_all
  | resolve hphase outcome => exact h.resolve hphase outcome
  | elapse hphase hnow =>
    cases h with
    | waiting hphase' hevents hdue hduring hasked hidle hquiet hkept hbounds =>
      obtain rfl := Phase.waiting.inj (hphase.symm.trans hphase')
      subst hevents
      rw [List.append_assoc, List.cons_append, List.append_assoc, List.cons_append, hnow, hinterval]
      refine .of_no_call rfl ?_ hkept
      exact .next hdue hduring (.elapsed hasked hidle hquiet) (callsAt_nil _)
    | _ => simp_all
  | refresh => exact h.refresh hlast hdeadline hinterval
  | acknowledge => exact h.acknowledge hlast hdeadline hinterval
  | stop => exact .stopped rfl

theorem traced_of_run (h : Run (.begin interval) 0 events l last) :
    Traced interval events l last :=
  Run.induction_concat (motive := Traced interval)
    (.of_no_call rfl (.first (callsAt_nil 0)) rfl)
    (fun hrun htraced hlast hstep => htraced.step hlast hrun.interval_eq hstep) h

end CameraFleet.Polling
