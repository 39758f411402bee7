import CameraFleet.Proofs.Polling.History
import CameraFleet.Proofs.Polling.Mirror

/-!
# When a polling loop fetches

A fetch starts when the history leaves one due, and time does not pass before it does. So fetches
come one after the other (`Balanced`), refreshes during a fetch bring one fetch at once behind it
and leave the later ones to the interval (`KeepsInterval`), and a loop that was stopped fetches no
more (`scheduled_of_run`).
-/

namespace CameraFleet.Polling

/-- Whether an event is the start of a fetch. -/
def Event.isStart : Event → Bool
  | .start => true
  | _ => false

/-- The number of fetches that started among events. -/
def starts (events : List (Nat × Event)) : Nat :=
  events.countP (·.2.isStart)

/-- The number of fetches that ended among events. -/
def ends (events : List (Nat × Event)) : Nat :=
  (outcomes events).length

/-- No fetch starts. -/
def Unstarted (events : List (Nat × Event)) : Prop :=
  ∀ e ∈ events, e.2 ≠ .start

/-- The first fetch that starts among events does so at a time. -/
def StartsFirst (events : List (Nat × Event)) (time : Nat) : Prop :=
  ∃ wait rest, events = wait ++ (time, .start) :: rest ∧ Unstarted wait

/-- Behind each fetch that is over the next one starts an interval later. -/
def KeepsInterval (interval : Nat) (events : List (Nat × Event)) : Prop :=
  ∀ before start during ended outcome after time,
    events = before ++ (start, .start) :: (during ++ (ended, .resolve outcome) :: after) →
    OnlyCalls during → StartsFirst after time → time = ended + interval

/-- A loop fetches as it should in a history that has led to it. -/
structure Scheduled (interval : Nat) (events : List (Nat × Event)) (l : Loop) (last : Nat) :
    Prop where
  /-- At most one fetch is in flight at any time. -/
  one_in_flight : ∀ before after, events = before ++ after →
    ends before ≤ starts before ∧ starts before ≤ ends before + 1
  /-- A fetch starts when it is due. -/
  start_due : ∀ before time after, events = before ++ (time, .start) :: after →
    ∃ queued, LeavesDue interval before queued time
  /-- A fetch that is due can start, and nothing happens at a later time before it does. -/
  due_start : ∀ since, l.phase = .due since →
    since = last ∧ (l.step? last .start).isSome ∧
      ∀ now event l', l.step? now event = some l' → now ≤ last
  /-- A fetch in flight can end at any time, with any outcome. -/
  fetching_resolve : ∀ since, l.phase = .fetching since →
    ∀ now outcome, (l.step? now (.resolve outcome)).isSome
  /-- A wait can end when the interval is over, and nothing happens at a later time before. -/
  waiting_elapse : ∀ since, l.phase = .waiting since →
    last ≤ since + interval ∧ (l.step? (since + interval) .elapse).isSome ∧
      ∀ now event l', l.step? now event = some l' → now ≤ since + interval
  /-- No refresh is pending in a wait, neither kept nor asked for since the fetch started. -/
  waiting_unasked : ∀ since, l.phase = .waiting since →
    l.refreshKept = false ∧ ∃ before start during outcome idle,
      events = before ++ (start, .start) :: (during ++ (since, .resolve outcome) :: idle) ∧
      OnlyCalls during ∧ ¬ Asks during ∧ OnlyCalls idle ∧ ¬ Asks idle
  /-- Refreshes during a fetch, any number of them, make the next one start at once, but none
  behind that. -/
  asked_once : ∀ before start during ended outcome after,
    events = before ++ (start, .start) :: (during ++ (ended, .resolve outcome) :: after) →
    OnlyCalls during → Asks during →
    (after = [] → l.phase = .due ended) ∧ (∀ time, StartsFirst after time → time = ended) ∧
      (¬ Asks after → KeepsInterval interval after)
  /-- After a stop no fetch starts or ends. -/
  stopped : ∀ before time after, events = before ++ (time, .stop) :: after →
    l.phase = .stopped ∧ ∀ e ∈ after, e.2 ≠ .start ∧ ∀ outcome, e.2 ≠ .resolve outcome

variable {interval now time last since ended due start start' : Nat} {l l' : Loop} {event : Event}
  {outcome outcome' : Outcome}
  {events before before' after during during' queued wait wait' : List (Nat × Event)}

/-! ## Counting fetches -/

theorem starts_concat :
    starts (events ++ [(now, event)]) = starts events + event.isStart.toNat := by
  rw [starts, List.countP_append]
  cases event <;> rfl

theorem ends_concat :
    ends (events ++ [(now, event)]) = ends events + event.outcome?.toList.length := by
  rw [ends, outcomes_concat, List.length_append]
  rfl

/-- How many fetches started and ended before a loop came to a phase. -/
def Balanced (starts ends : Nat) : Phase → Prop
  | .due _ | .waiting _ => starts = ends
  | .fetching _ => starts = ends + 1
  | .stopped => ends ≤ starts ∧ starts ≤ ends + 1

theorem Balanced.bounds {starts ends : Nat} {phase : Phase} (h : Balanced starts ends phase) :
    ends ≤ starts ∧ starts ≤ ends + 1 := by
  cases phase <;> simp only [Balanced] at h <;> omega

theorem Balanced.step (h : Balanced (starts events) (ends events) l.phase)
    (hstep : l.step? now event = some l') :
    Balanced (starts (events ++ [(now, event)])) (ends (events ++ [(now, event)])) l'.phase := by
  rw [starts_concat, ends_concat]
  cases (Loop.step?_eq_some hstep).1 with
  | start hphase =>
    rw [hphase] at h
    exact congrArg (· + 1) h
  | resolve hphase outcome =>
    rw [hphase] at h
    simp only [Loop.endFetch]
    split <;> exact h
  | elapse hphase =>
    rw [hphase] at h
    exact h
  | refresh =>
    by_cases hwaiting : ∃ since, l.phase = .waiting since
    · obtain ⟨since, hphase⟩ := hwaiting
      rw [Loop.refresh_of_waiting hphase]
      rw [hphase] at h
      exact h
    · push Not at hwaiting
      rw [Loop.refresh_of_not_waiting hwaiting]
      exact h
  | acknowledge => exact h
  | stop => exact h.bounds

theorem balanced_of_run (h : Run (.begin interval) 0 events l last) :
    Balanced (starts events) (ends events) l.phase := by
  refine Run.induction_concat
    (motive := fun events l _ => Balanced (starts events) (ends events) l.phase) ?_
    (fun _ hbalanced _ hstep => hbalanced.step hstep) h
  rfl

/-! ## After a stop -/

theorem stopped_of_run (h : Run l time events l' last) (hphase : l.phase = .stopped) :
    l'.phase = .stopped ∧ ∀ e ∈ events, e.2 ≠ .start ∧ ∀ outcome, e.2 ≠ .resolve outcome := by
  induction h with
  | nil => exact ⟨hphase, by simp⟩
  | cons _ hstep _ ih =>
    cases (Loop.step?_eq_some hstep).1 with
    | start hphase' | resolve hphase' | elapse hphase' => simp [hphase] at hphase'
    | refresh =>
      rw [Loop.refresh_of_not_waiting (by simp [hphase])] at ih
      obtain ⟨hlast, hrest⟩ := ih hphase
      exact ⟨hlast, List.forall_mem_cons.2 ⟨by simp, hrest⟩⟩
    | acknowledge =>
      obtain ⟨hlast, hrest⟩ := ih hphase
      exact ⟨hlast, List.forall_mem_cons.2 ⟨by simp, hrest⟩⟩
    | stop =>
      obtain ⟨hlast, hrest⟩ := ih rfl
      exact ⟨hlast, List.forall_mem_cons.2 ⟨by simp, hrest⟩⟩

/-! ## The last fetch of a history -/

theorem OnlyCalls.unstarted (h : OnlyCalls events) : Unstarted events := fun e he => by
  rcases h e he with he | he <;> simp [he]

theorem OnlyCalls.ne_resolve (h : OnlyCalls events) :
    ∀ e ∈ events, ∀ outcome, e.2 ≠ .resolve outcome := fun e he => by
  rcases h e he with he | he <;> simp [he]

/-- Of two places in a list one comes first, or they are the same. -/
theorem append_cons_trichotomy {α : Type*} {a a' b b' : List α} {x x' : α}
    (h : a ++ x :: b = a' ++ x' :: b') :
    (a = a' ∧ x = x' ∧ b = b') ∨ (∃ c, a' = a ++ x :: c ∧ b = c ++ x' :: b') ∨
      ∃ c, a = a' ++ x' :: c ∧ b' = c ++ x :: b := by
  rcases List.append_eq_append_iff.1 h with ⟨c, hc, hc'⟩ | ⟨c, hc, hc'⟩
  · cases c with
    | nil => simp_all
    | cons y c =>
      obtain ⟨rfl, rfl⟩ := List.cons.inj hc'
      exact Or.inr (Or.inl ⟨c, hc, rfl⟩)
  · cases c with
    | nil => simp_all
    | cons y c =>
      obtain ⟨rfl, rfl⟩ := List.cons.inj hc'
      exact Or.inr (Or.inr ⟨c, hc, rfl⟩)

theorem last_start_inj
    (h : before ++ (start, .start) :: after = before' ++ (start', .start) :: wait)
    (hafter : Unstarted after) (hwait : Unstarted wait) :
    before = before' ∧ start = start' ∧ after = wait := by
  rcases append_cons_trichotomy h with ⟨hb, hs, ha⟩ | ⟨c, -, rfl⟩ | ⟨c, -, rfl⟩
  · exact ⟨hb, (Prod.mk.inj hs).1, ha⟩
  · exact absurd rfl (hafter (start', .start) (by simp))
  · exact absurd rfl (hwait (start, .start) (by simp))

theorem first_resolve_inj {ended' : Nat}
    (h : during ++ (ended, .resolve outcome) :: wait =
      during' ++ (ended', .resolve outcome') :: wait')
    (hduring : OnlyCalls during) (hduring' : OnlyCalls during') :
    during = during' ∧ ended = ended' ∧ wait = wait' := by
  rcases append_cons_trichotomy h with ⟨hd, ho, hw⟩ | ⟨c, rfl, -⟩ | ⟨c, rfl, -⟩
  · exact ⟨hd, (Prod.mk.inj ho).1, hw⟩
  · exact absurd rfl (hduring'.ne_resolve (ended, .resolve outcome) (by simp) outcome)
  · exact absurd rfl (hduring.ne_resolve (ended', .resolve outcome') (by simp) outcome')

theorem unstarted_fetch (hduring : OnlyCalls during) (hwait : Unstarted wait) :
    Unstarted (during ++ (ended, .resolve outcome) :: wait) :=
  List.forall_mem_append.2 ⟨hduring.unstarted, List.forall_mem_cons.2 ⟨by simp, hwait⟩⟩

theorem WaitEnds.unstarted {asked : Prop} (h : WaitEnds interval since asked wait queued due)
    (hqueued : OnlyCalls queued) : Unstarted wait := by
  have hrest : ∀ {time event}, event ≠ Event.start → Unstarted ((time, event) :: queued) :=
    fun hevent => List.forall_mem_cons.2 ⟨hevent, hqueued.unstarted⟩
  cases h with
  | skipped => exact hqueued.unstarted
  | elapsed _ hidle => exact List.forall_mem_append.2 ⟨hidle.unstarted, hrest (by simp)⟩
  | refreshed _ hidle => exact List.forall_mem_append.2 ⟨hidle.unstarted, hrest (by simp)⟩

/-- A fetch is due after a history when the wait behind its last fetch ends. -/
theorem LeavesDue.waitEnds
    (h : LeavesDue interval
      (before ++ (start, .start) :: (during ++ (ended, .resolve outcome) :: wait)) queued due)
    (hduring : OnlyCalls during) (hwait : Unstarted wait) :
    ∃ asking, LeavesDue interval before asking start ∧
      WaitEnds interval ended (Asks asking ∨ Asks during) wait queued due := by
  generalize hevents :
    before ++ (start, .start) :: (during ++ (ended, .resolve outcome) :: wait) = events at h
  cases h with
  | first hqueued =>
    subst hevents
    exact absurd rfl (hqueued.only.unstarted (start, .start) (by simp))
  | next hbefore hduring' hwait' hqueued =>
    obtain ⟨rfl, rfl, hfetch⟩ := last_start_inj hevents (unstarted_fetch hduring hwait)
      (unstarted_fetch hduring' (hwait'.unstarted hqueued.only))
    obtain ⟨rfl, rfl, rfl⟩ := first_resolve_inj hfetch hduring hduring'
    exact ⟨_, hbefore, hwait'⟩

theorem WaitEnds.eq_of_asked {asked : Prop} (h : WaitEnds interval since asked wait queued due)
    (hasked : asked) : due = since := by
  cases h with
  | skipped => rfl
  | elapsed hnot | refreshed hnot => exact absurd hasked hnot

theorem WaitEnds.eq_of_not_asks {asked : Prop} (h : WaitEnds interval since asked wait queued due)
    (hasked : ¬ asked) (hwait : ¬ Asks wait) : due = since + interval := by
  cases h with
  | skipped h => exact absurd h hasked
  | elapsed => rfl
  | refreshed => exact absurd ⟨due, by simp⟩ hwait

theorem WaitEnds.suffix {asked : Prop} (h : WaitEnds interval since asked wait queued due) :
    queued <:+ wait := by
  cases h with
  | skipped => exact List.suffix_refl _
  | elapsed | refreshed => exact (List.suffix_cons _ _).trans (List.suffix_append _ _)

theorem LeavesDue.suffix (h : LeavesDue interval events queued due) : queued <:+ events := by
  cases h with
  | first => exact List.suffix_refl _
  | next _ _ hwait =>
    exact hwait.suffix.trans <| (List.suffix_cons _ _).trans <| (List.suffix_append _ _).trans <|
      (List.suffix_cons _ _).trans (List.suffix_append _ _)

/-- The calls since a fetch is due came behind the last fetch. -/
theorem LeavesDue.suffix_of_resolve
    (h : LeavesDue interval (before ++ (ended, .resolve outcome) :: after) queued due) :
    queued <:+ after := by
  have hne : ∀ rest, queued ≠ rest ++ (ended, .resolve outcome) :: after := fun rest hq =>
    h.callsAt.only.ne_resolve (ended, .resolve outcome) (by simp [hq]) outcome rfl
  rcases List.suffix_or_suffix_of_suffix h.suffix (List.suffix_append before _) with hq | ⟨rest, hq⟩
  · exact (List.suffix_cons_iff.1 hq).resolve_left (hne [])
  · exact absurd hq.symm (hne rest)

theorem Asks.mono (h : Asks events) (hsubset : events ⊆ after) : Asks after :=
  h.imp fun _ hmem => hsubset hmem

/-! ## Runs -/

theorem leavesDue_of_run (h : Run (.begin interval) 0 (before ++ (time, .start) :: after) l last) :
    ∃ queued, LeavesDue interval before queued time := by
  obtain ⟨l₁, now, hbefore, hafter⟩ := h.split
  obtain ⟨hnow, l₂, hstep, -⟩ := hafter.step
  obtain ⟨hstepped, hdeadline⟩ := Loop.step?_eq_some hstep
  cases hstepped with
  | start hphase =>
    cases traced_of_run hbefore with
    | due hphase' hdue =>
      obtain rfl : time = now :=
        Nat.le_antisymm (hdeadline _ (by simp [Loop.deadline?, hphase'])) hnow
      exact ⟨_, hdue⟩
    | fetching hphase' | waiting hphase' | stopped hphase' => simp [hphase] at hphase'

theorem due_of_run
    (h : Run (.begin interval) 0
      (before ++ (start, .start) :: (during ++ [(ended, .resolve outcome)])) l last)
    (hduring : OnlyCalls during) (hasks : Asks during) : l.phase = .due ended := by
  rw [← List.cons_append, ← List.append_assoc] at h
  obtain ⟨l₁, now, hbefore, hafter⟩ := h.split
  obtain ⟨-, l₂, hstep, hend⟩ := hafter.step
  cases hend
  cases (Loop.step?_eq_some hstep).1 with
  | resolve hphase =>
    cases traced_of_run hbefore with
    | fetching hphase' hevents hdue hduring' hkept =>
      obtain ⟨-, -, rfl⟩ := last_start_inj hevents hduring.unstarted hduring'.unstarted
      simp [Loop.endFetch, hkept.2 (Or.inr hasks)]
    | due hphase' | waiting hphase' | stopped hphase' => simp [hphase] at hphase'

theorem waitEnds_of_run
    (h : Run (.begin interval) 0
      (before ++ (start, .start) :: (during ++ (ended, .resolve outcome) :: after)) l last)
    (hduring : OnlyCalls during) (hfirst : StartsFirst after time) :
    ∃ asking wait rest queued, after = wait ++ rest ∧ LeavesDue interval before asking start ∧
      WaitEnds interval ended (Asks asking ∨ Asks during) wait queued time := by
  obtain ⟨wait, rest, rfl, hwait⟩ := hfirst
  have hevents : before ++ (start, .start) ::
        (during ++ (ended, .resolve outcome) :: (wait ++ (time, .start) :: rest)) =
      before ++ (start, .start) :: (during ++ (ended, .resolve outcome) :: wait) ++
        (time, .start) :: rest := by
    simp
  rw [hevents] at h
  obtain ⟨queued, hdue⟩ := leavesDue_of_run h
  obtain ⟨asking, hbefore, hends⟩ := hdue.waitEnds hduring hwait
  exact ⟨asking, wait, _, queued, rfl, hbefore, hends⟩

theorem keepsInterval_of_run
    (h : Run (.begin interval) 0 (before ++ (ended, .resolve outcome) :: after) l last)
    (hafter : ¬ Asks after) : KeepsInterval interval after := by
  rintro before' start during ended' outcome' after' time rfl hduring hfirst
  have hevents : before ++ (ended, .resolve outcome) ::
        (before' ++ (start, .start) :: (during ++ (ended', .resolve outcome') :: after')) =
      before ++ (ended, .resolve outcome) :: before' ++
        (start, .start) :: (during ++ (ended', .resolve outcome') :: after') := by
    simp
  rw [hevents] at h
  obtain ⟨asking, wait, rest, queued, rfl, hdue, hends⟩ := waitEnds_of_run h hduring hfirst
  refine hends.eq_of_not_asks ?_ fun hwait => hafter (hwait.mono fun e he => by simp [he])
  rintro (hasking | hasks)
  · exact hafter (hasking.mono fun e he => by simp [hdue.suffix_of_resolve.subset he])
  · exact hafter (hasks.mono fun e he => by simp [he])

theorem scheduled_of_run (h : Run (.begin interval) 0 events l last) :
    Scheduled interval events l last where
  one_in_flight := by
    rintro before after rfl
    obtain ⟨l₁, time, hbefore, -⟩ := h.split
    exact (balanced_of_run hbefore).bounds
  start_due := by
    rintro before time after rfl
    exact leavesDue_of_run h
  due_start := by
    intro since hphase
    obtain rfl : since = last := by
      cases traced_of_run h with
      | due hphase' => exact Phase.due.inj (hphase.symm.trans hphase')
      | fetching hphase' | waiting hphase' | stopped hphase' => simp [hphase] at hphase'
    have hdeadline : l.deadline? = some since := by simp [Loop.deadline?, hphase]
    refine ⟨rfl, by simp [Loop.step?, hdeadline, hphase], fun now event l' hstep => ?_⟩
    exact (Loop.step?_eq_some hstep).2 since hdeadline
  fetching_resolve := by
    intro since hphase now outcome
    simp [Loop.step?, Loop.deadline?, hphase]
  waiting_elapse := by
    intro since hphase
    have hdeadline : l.deadline? = some (since + interval) := by
      simp [Loop.deadline?, hphase, h.interval_eq, Loop.begin]
    refine ⟨?_, ?_, fun now event l' hstep => (Loop.step?_eq_some hstep).2 _ hdeadline⟩
    · cases traced_of_run h with
      | waiting hphase' _ _ _ _ _ _ _ hlast =>
        obtain rfl := Phase.waiting.inj (hphase.symm.trans hphase')
        exact hlast.2
      | due hphase' | fetching hphase' | stopped hphase' => simp [hphase] at hphase'
    · simp [Loop.step?, hdeadline, hphase, h.interval_eq, Loop.begin]
  waiting_unasked := by
    intro since hphase
    cases traced_of_run h with
    | waiting hphase' hevents _ hduring hasked hidle hquiet hkept =>
      obtain rfl := Phase.waiting.inj (hphase.symm.trans hphase')
      exact ⟨hkept, _, _, _, _, _, hevents, hduring, fun hasks => hasked (Or.inr hasks), hidle,
        hquiet⟩
    | due hphase' | fetching hphase' | stopped hphase' => simp [hphase] at hphase'
  asked_once := by
    rintro before start during ended outcome after rfl hduring hasks
    refine ⟨?_, fun time hfirst => ?_, fun hafter => ?_⟩
    · rintro rfl
      exact due_of_run h hduring hasks
    · obtain ⟨asking, wait, rest, queued, -, -, hends⟩ := waitEnds_of_run h hduring hfirst
      exact hends.eq_of_asked (Or.inr hasks)
    · rw [← List.cons_append, ← List.append_assoc] at h
      exact keepsInterval_of_run h hafter
  stopped := by
    rintro before time after rfl
    obtain ⟨l₁, now, -, hafter⟩ := h.split
    obtain ⟨-, l₂, hstep, hrest⟩ := hafter.step
    cases (Loop.step?_eq_some hstep).1 with
    | stop => exact stopped_of_run hrest rfl

/-- Two refreshes during the first fetch, which fails, and a stop during the third one. -/
def askedTwice : List (Nat × Event) :=
  [(0, .start), (1, .refresh), (2, .refresh), (5, .resolve none), (5, .start), (9, .resolve none),
    (3009, .elapse), (3009, .start), (3010, .stop), (3011, .acknowledge)]

theorem scheduled_of_run_askedTwice : ∃ l : Loop, Run (.begin 3000) 0 askedTwice l 3011 ∧
    KeepsInterval 3000 (askedTwice.drop 4) ∧ l.phase = .stopped := by
  have hrun : ∃ l, Run (.begin 3000) 0 askedTwice l 3011 :=
    ⟨_, .cons (by decide) rfl <| .cons (by decide) rfl <| .cons (by decide) rfl <|
      .cons (by decide) rfl <| .cons (by decide) rfl <| .cons (by decide) rfl <|
      .cons (by decide) rfl <| .cons (by decide) rfl <| .cons (by decide) rfl <|
      .cons (by decide) rfl <| .nil _ _⟩
  obtain ⟨l, hrun⟩ := hrun
  have hscheduled := scheduled_of_run hrun
  obtain ⟨-, -, hkeeps⟩ := hscheduled.asked_once [] 0 [(1, .refresh), (2, .refresh)] 5 none
    (askedTwice.drop 4) rfl (by simp [OnlyCalls]) ⟨1, by simp⟩
  refine ⟨l, hrun, hkeeps (by simp [Asks, askedTwice]), ?_⟩
  exact (hscheduled.stopped (askedTwice.take 8) 3010 [(3011, .acknowledge)] rfl).1

end CameraFleet.Polling
