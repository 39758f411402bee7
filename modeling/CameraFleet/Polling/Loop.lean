import CameraFleet.Polling.View

/-!
# The polling loop

A loop fetches, takes in what the fetch came to, waits, and fetches again. The wait is over when
the interval has passed since the fetch ended, or when a refresh is asked for. A refresh that
comes while no wait is on is kept, one at most, and makes the next wait end before it begins. A
loop that is stopped does nothing any more.

`step?` says which events can happen when. Time does not pass over a fetch that is due, nor over
the end of a wait.
-/

namespace CameraFleet.Polling

/-- The default interval in milliseconds. -/
def defaultInterval : Nat := 3000

/-- What a loop is at, and since which time. -/
inductive Phase where
  /-- A fetch starts at once. -/
  | due (since : Nat)
  /-- One fetch is in flight. -/
  | fetching (since : Nat)
  /-- The last fetch is over. -/
  | waiting (since : Nat)
  | stopped
  deriving DecidableEq

/-- What happens to a loop. -/
inductive Event where
  /-- The fetch that is due starts. -/
  | start
  /-- The fetch in flight is over. -/
  | resolve (outcome : Outcome)
  /-- The interval is over. -/
  | elapse
  /-- A refresh is asked for. -/
  | refresh
  /-- A failure is acknowledged. -/
  | acknowledge
  /-- The loop is stopped. -/
  | stop

/-- A loop with the view that it keeps. -/
structure Loop where
  interval : Nat
  phase : Phase
  /-- Whether a refresh is kept for the next wait. -/
  refreshKept : Bool
  /-- The fetches that were started. -/
  started : Nat
  view : View

namespace Loop

/-- A loop that begins at time 0. -/
def begin (interval : Nat) : Loop :=
  ⟨interval, .due 0, false, 0, .empty⟩

def isRunning (l : Loop) : Bool :=
  l.phase ≠ .stopped

/-- The time that does not pass in the present phase. -/
def deadline? (l : Loop) : Option Nat :=
  match l.phase with
  | .due since => some since
  | .waiting since => some (since + l.interval)
  | .fetching _ | .stopped => none

/-- Starts the fetch that is due. -/
def startFetch (l : Loop) (now : Nat) : Loop :=
  { l with phase := .fetching now, started := l.started + 1 }

/-- Ends the fetch in flight. A refresh that was kept takes the place of the wait. -/
def endFetch (l : Loop) (now : Nat) (outcome : Outcome) : Loop :=
  { l with
    phase := if l.refreshKept then .due now else .waiting now
    refreshKept := false
    view := l.view.record outcome }

/-- Asks for a refresh, which ends a wait or is kept. -/
def refresh (l : Loop) (now : Nat) : Loop :=
  match l.phase with
  | .waiting _ => { l with phase := .due now }
  | _ => { l with refreshKept := true }

def acknowledge (l : Loop) : Loop :=
  { l with view := l.view.clearFailure }

/-- Stops the loop. A fetch in flight is abandoned. -/
def stop (l : Loop) : Loop :=
  { l with phase := .stopped }

/-- The loop after an event, where the event can happen at that time. -/
def step? (l : Loop) (now : Nat) (event : Event) : Option Loop :=
  if l.deadline?.any (· < now) then none
  else match event, l.phase with
    | .start, .due _ => some (l.startFetch now)
    | .resolve outcome, .fetching _ => some (l.endFetch now outcome)
    | .elapse, .waiting since =>
      if now = since + l.interval then some { l with phase := .due now } else none
    | .refresh, _ => some (l.refresh now)
    | .acknowledge, _ => some l.acknowledge
    | .stop, _ => some l.stop
    | _, _ => none

end Loop

/-- The loops that `l` becomes by events at times that do not decrease, beginning at `from`. -/
inductive Run : Loop → Nat → List (Nat × Event) → Loop → Nat → Prop where
  | nil (l : Loop) (time : Nat) : Run l time [] l time
  | cons {l l' l'' : Loop} {time now last : Nat} {event : Event} {events : List (Nat × Event)} :
      time ≤ now → l.step? now event = some l' → Run l' now events l'' last →
      Run l time ((now, event) :: events) l'' last

end CameraFleet.Polling
