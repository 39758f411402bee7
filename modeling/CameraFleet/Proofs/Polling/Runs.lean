import Mathlib.Data.List.Induction
import CameraFleet.Polling.Loop

/-!
# Runs of the polling loop

What an event does to a loop depends on the phase (`Stepped`), and no event comes later than the
deadline of the phase (`step?_eq_some`). A run is put together from shorter ones and taken apart
again at any place (`Run.append`, `Run.split`), so what holds at the beginning and is kept by each
event holds after every run (`Run.induction_concat`).
-/

namespace CameraFleet.Polling

namespace Loop

/-- What an event makes of a loop in the phase that it needs. -/
inductive Stepped (l : Loop) (now : Nat) : Event → Loop → Prop where
  | start {since : Nat} (hphase : l.phase = .due since) : Stepped l now .start (l.startFetch now)
  | resolve {since : Nat} (hphase : l.phase = .fetching since) (outcome : Outcome) :
    Stepped l now (.resolve outcome) (l.endFetch now outcome)
  | elapse {since : Nat} (hphase : l.phase = .waiting since) (hnow : now = since + l.interval) :
    Stepped l now .elapse { l with phase := .due now }
  | refresh : Stepped l now .refresh (l.refresh now)
  | acknowledge : Stepped l now .acknowledge l.acknowledge
  | stop : Stepped l now .stop l.stop

variable {l l' : Loop} {now since : Nat} {event : Event}

theorem step?_eq_some (h : l.step? now event = some l') :
    Stepped l now event l' ∧ ∀ deadline, l.deadline? = some deadline → now ≤ deadline := by
  unfold step? at h
  split_ifs at h with hlate
  refine ⟨?_, fun deadline hd => ?_⟩
  · split at h
    · obtain rfl := Option.some.inj h
      exact .start ‹_›
    · obtain rfl := Option.some.inj h
      exact .resolve ‹_› _
    · split_ifs at h with hnow
      obtain rfl := Option.some.inj h
      exact .elapse ‹_› hnow
    · obtain rfl := Option.some.inj h
      exact .refresh
    · obtain rfl := Option.some.inj h
      exact .acknowledge
    · obtain rfl := Option.some.inj h
      exact .stop
    · exact absurd h (by simp)
  · rw [hd] at hlate
    simpa using hlate

theorem Stepped.interval_eq (h : Stepped l now event l') : l'.interval = l.interval := by
  cases h
  case refresh =>
    unfold Loop.refresh
    split <;> rfl
  all_goals rfl

theorem refresh_of_waiting (h : l.phase = .waiting since) :
    l.refresh now = { l with phase := .due now } := by
  simp only [refresh, h]

theorem refresh_of_not_waiting (h : ∀ since, l.phase ≠ .waiting since) :
    l.refresh now = { l with refreshKept := true } := by
  unfold refresh
  split
  · exact absurd ‹_› (h _)
  · rfl

end Loop

namespace Run

variable {l l' l'' : Loop} {time time' last : Nat} {before after : List (Nat × Event)}

theorem append (h : Run l time before l' time') (h' : Run l' time' after l'' last) :
    Run l time (before ++ after) l'' last := by
  induction h with
  | nil l time => exact h'
  | cons htime hstep _ ih => exact .cons htime hstep (ih h')

/-- A run passes through a loop between any two parts of its events. -/
theorem split (h : Run l time (before ++ after) l'' last) :
    ∃ l' time', Run l time before l' time' ∧ Run l' time' after l'' last := by
  induction before generalizing l time with
  | nil => exact ⟨l, time, .nil l time, h⟩
  | cons e before ih =>
    cases h with
    | cons htime hstep hrest =>
      obtain ⟨l', time', hbefore, hafter⟩ := ih hrest
      exact ⟨l', time', .cons htime hstep hbefore, hafter⟩

theorem step {now : Nat} {event : Event} (h : Run l time ((now, event) :: after) l'' last) :
    time ≤ now ∧ ∃ l', l.step? now event = some l' ∧ Run l' now after l'' last := by
  cases h with
  | cons htime hstep hrest => exact ⟨htime, _, hstep, hrest⟩

theorem of_le (h : Run l time before l' last) (hle : time' ≤ time) :
    ∃ last', last' ≤ last ∧ Run l time' before l' last' := by
  cases h with
  | nil => exact ⟨time', hle, .nil l time'⟩
  | cons htime hstep hrest =>
    exact ⟨last, Nat.le_refl last, .cons (Nat.le_trans hle htime) hstep hrest⟩

theorem interval_eq (h : Run l time before l' last) : l'.interval = l.interval := by
  induction h with
  | nil => rfl
  | cons _ hstep _ ih => exact ih.trans (Loop.step?_eq_some hstep).1.interval_eq

/-- What holds before a run, and is kept by every event that a run so far can go on with, holds
after the run. -/
theorem induction_concat {motive : List (Nat × Event) → Loop → Nat → Prop} (hnil : motive [] l time)
    (hconcat : ∀ {events : List (Nat × Event)} {l₁ l₂ : Loop} {t now : Nat} {event : Event},
      Run l time events l₁ t → motive events l₁ t → t ≤ now → l₁.step? now event = some l₂ →
      motive (events ++ [(now, event)]) l₂ now) :
    ∀ {events : List (Nat × Event)} {l' : Loop} {last : Nat}, Run l time events l' last →
      motive events l' last := by
  intro events
  induction events using List.reverseRecOn with
  | nil =>
    intro l' last h
    cases h
    exact hnil
  | append_singleton events e ih =>
    intro l' last h
    obtain ⟨l₁, t, hbefore, hlast⟩ := h.split
    obtain ⟨htime, l₂, hstep, hend⟩ := hlast.step
    cases hend
    exact hconcat hbefore (ih hbefore) htime hstep

end Run

end CameraFleet.Polling
