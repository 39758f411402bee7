import Mathlib.Data.List.ReduceOption
import CameraFleet.DemoFleet
import CameraFleet.Proofs.Polling.Runs

/-!
# What a loop's view tells of its history

Only the end of a fetch and the acknowledgement of a failure change the view (`view_step`). So the
view is told by the events (`mirrors_of_run`): its cameras are the last snapshot, its flag is up
when a fetch has failed since failures were last acknowledged, every fetch that is over is
counted, and a reader finds one new version for each snapshot.
-/

namespace CameraFleet.Polling

/-- What the fetch came to that an event ends. -/
def Event.outcome? : Event → Option Outcome
  | .resolve outcome => some outcome
  | _ => none

/-- What the fetches came to that ended among events. -/
def outcomes (events : List (Nat × Event)) : List Outcome :=
  events.filterMap (·.2.outcome?)

/-- The snapshots that were fetched among events. -/
def snapshots (events : List (Nat × Event)) : List (List Camera) :=
  (outcomes events).reduceOption

/-- A fetch has failed, and failures have not been acknowledged since. -/
def HasOpenFailure (events : List (Nat × Event)) : Prop :=
  ∃ before time after, events = before ++ (time, .resolve none) :: after ∧
    ∀ e ∈ after, e.2 ≠ .acknowledge

variable {events : List (Nat × Event)} {time : Nat} {event : Event}

theorem outcomes_concat : outcomes (events ++ [(time, event)]) =
    outcomes events ++ event.outcome?.toList := by
  rw [outcomes, List.filterMap_append]
  rcases h : event.outcome? with _ | outcome <;> simp [h, outcomes]

theorem snapshots_append (before after : List (Nat × Event)) :
    snapshots (before ++ after) = snapshots before ++ snapshots after := by
  rw [snapshots, outcomes, List.filterMap_append, List.reduceOption_append]
  rfl

theorem snapshots_concat : snapshots (events ++ [(time, event)]) =
    snapshots events ++ event.outcome?.join.toList := by
  rw [snapshots_append]
  rcases h : event.outcome? with _ | _ | snapshot <;> simp [h, snapshots, outcomes]

theorem hasOpenFailure_concat : HasOpenFailure (events ++ [(time, event)]) ↔
    event = .resolve none ∨ event ≠ .acknowledge ∧ HasOpenFailure events := by
  constructor
  · rintro ⟨before, t, after, h, hafter⟩
    rcases List.eq_nil_or_concat after with rfl | ⟨after, e, rfl⟩
    · obtain ⟨-, he⟩ := List.append_inj' h rfl
      exact Or.inl (Prod.mk.inj (List.singleton_inj.1 he)).2
    · rw [List.concat_eq_append] at h hafter
      rw [← List.cons_append, ← List.append_assoc] at h
      obtain ⟨rfl, he⟩ := List.append_inj' h rfl
      obtain rfl := List.singleton_inj.1 he
      refine Or.inr ⟨hafter (time, event) (by simp), before, t, after, rfl, fun e he => ?_⟩
      exact hafter e (by simp [he])
  · rintro (rfl | ⟨hne, before, t, after, rfl, hafter⟩)
    · exact ⟨events, time, [], rfl, by simp⟩
    · refine ⟨before, t, after ++ [(time, event)], by simp, fun e he => ?_⟩
      rcases List.mem_append.1 he with he | he
      · exact hafter e he
      · rw [List.mem_singleton.1 he]
        exact hne

/-! ## One event -/

namespace View

/-- What an event makes of a view. -/
def after (v : View) : Event → View
  | .resolve outcome => v.record outcome
  | .acknowledge => v.clearFailure
  | _ => v

theorem cameras_after (v : View) (event : Event) :
    (v.after event).cameras = event.outcome?.join.getD v.cameras := by
  cases event
  case resolve outcome =>
    cases outcome with
    | none => rfl
    | some snapshot => exact overwrite_eq _ _
  all_goals rfl

theorem hasFailed_after (v : View) (event : Event) : (v.after event).hasFailed = true ↔
    event = .resolve none ∨ event ≠ .acknowledge ∧ v.hasFailed = true := by
  cases event
  case resolve outcome => cases outcome <;> simp [after, record, reconcile]
  all_goals simp [after, clearFailure]

theorem completed_after (v : View) (event : Event) : (v.after event).completed.toNat =
    (v.completed.toNat + event.outcome?.toList.length) % UInt64.size := by
  have hlt := v.completed.toNat_lt
  cases event
  case resolve outcome => cases outcome <;> exact UInt64.toNat_add _ _
  all_goals exact (Nat.mod_eq_of_lt hlt).symm

theorem version_after (v : View) (event : Event) :
    (v.after event).version = v.version + event.outcome?.join.toList.length := by
  cases event
  case resolve outcome => cases outcome <;> rfl
  all_goals rfl

end View

variable {l l' : Loop} {now : Nat}

theorem view_step (h : l.step? now event = some l') : l'.view = l.view.after event := by
  cases (Loop.step?_eq_some h).1
  case refresh =>
    unfold Loop.refresh
    split <;> rfl
  all_goals rfl

/-! ## Runs -/

/-- The view tells of the events as it should. -/
structure Mirrors (v : View) (events : List (Nat × Event)) : Prop where
  cameras : v.cameras = (snapshots events).getLast?.getD []
  hasFailed : v.hasFailed = true ↔ HasOpenFailure events
  completed : v.completed.toNat = (outcomes events).length % UInt64.size
  version : v.version = (snapshots events).length

theorem mirrors_empty : Mirrors .empty [] :=
  ⟨rfl, by simp [View.empty, HasOpenFailure], rfl, rfl⟩

theorem Mirrors.after {v : View} (h : Mirrors v events) (time : Nat) (event : Event) :
    Mirrors (v.after event) (events ++ [(time, event)]) := by
  refine ⟨?_, ?_, ?_, ?_⟩
  · rw [View.cameras_after, snapshots_concat, h.cameras]
    rcases event.outcome?.join with _ | snapshot <;> simp
  · rw [View.hasFailed_after, hasOpenFailure_concat, h.hasFailed]
  · rw [View.completed_after, outcomes_concat, List.length_append, h.completed, Nat.mod_add_mod]
  · rw [View.version_after, snapshots_concat, List.length_append, h.version]

theorem mirrors_of_run {interval last : Nat} (h : Run (.begin interval) 0 events l last) :
    Mirrors l.view events := by
  refine Run.induction_concat (motive := fun events l _ => Mirrors l.view events) mirrors_empty
    (fun _ hmirrors _ hstep => ?_) h
  rw [view_step hstep]
  exact hmirrors.after _ _

/-- How the view fares with any events, and with one fetch more that fails or brings a snapshot. -/
theorem view_of_run {interval last : Nat} (h : Run (.begin interval) 0 events l last) :
    l.view.cameras = (snapshots events).getLast?.getD [] ∧
    (l.view.hasFailed = true ↔ HasOpenFailure events) ∧
    l.view.completed.toNat = (outcomes events).length % UInt64.size ∧
    (∀ before after, events = before ++ after → ∃ l₁ time,
      Run (.begin interval) 0 before l₁ time ∧ Run l₁ time after l last ∧
      l.view.version = l₁.view.version + (snapshots after).length) ∧
    (∀ now l', l.step? now (.resolve none) = some l' →
      l'.view.cameras = l.view.cameras ∧ l'.view.version = l.view.version ∧
      l'.view.hasFailed = true ∧ l'.view.completed = l.view.completed + 1) ∧
    (∀ now snapshot l', l.step? now (.resolve (some snapshot)) = some l' →
      l'.view.cameras = snapshot ∧ l'.view.version = l.view.version + 1 ∧
      l'.view.hasFailed = l.view.hasFailed ∧ l'.view.completed = l.view.completed + 1) ∧
    ∀ cameras snapshot, View.overwrite cameras snapshot = snapshot := by
  have hmirrors := mirrors_of_run h
  refine ⟨hmirrors.cameras, hmirrors.hasFailed, hmirrors.completed, ?_, ?_, ?_, View.overwrite_eq⟩
  · rintro before after rfl
    obtain ⟨l₁, time, hbefore, hafter⟩ := h.split
    refine ⟨l₁, time, hbefore, hafter, ?_⟩
    rw [hmirrors.version, (mirrors_of_run hbefore).version, snapshots_append, List.length_append]
  · intro now l' hstep
    rw [view_step hstep]
    exact ⟨rfl, rfl, rfl, rfl⟩
  · intro now snapshot l' hstep
    rw [view_step hstep]
    exact ⟨View.overwrite_eq _ _, rfl, rfl, rfl⟩

/-- A snapshot, a failure, and at the refresh a shorter snapshot. -/
def demoHistory : List (Nat × Event) :=
  [(0, .start), (2, .resolve (some DemoFleet.cameras)), (3002, .elapse), (3002, .start),
    (3005, .resolve none), (3105, .refresh), (3105, .start),
    (3109, .resolve (some (DemoFleet.cameras.take 1)))]

theorem view_of_run_demoHistory : ∃ l : Loop, Run (.begin 3000) 0 demoHistory l 3109 ∧
    l.view.cameras = DemoFleet.cameras.take 1 ∧ l.view.hasFailed = true ∧
    l.view.completed.toNat = 3 := by
  have hrun : ∃ l, Run (.begin 3000) 0 demoHistory l 3109 :=
    ⟨_, .cons (by decide) rfl <| .cons (by decide) rfl <| .cons (by decide) rfl <|
      .cons (by decide) rfl <| .cons (by decide) rfl <| .cons (by decide) rfl <|
      .cons (by decide) rfl <| .cons (by decide) rfl <| .nil _ _⟩
  obtain ⟨l, hrun⟩ := hrun
  obtain ⟨hcameras, hfailed, hcompleted, -⟩ := view_of_run hrun
  exact ⟨l, hrun, hcameras, hfailed.2 ⟨demoHistory.take 4, 3005, demoHistory.drop 5, rfl,
    by simp [demoHistory]⟩, hcompleted⟩

end CameraFleet.Polling
