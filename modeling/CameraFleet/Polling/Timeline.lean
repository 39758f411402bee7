import CameraFleet.Polling.Loop

/-!
# Timelines

A polling loop with a clock, and with the answers that its fetches will get: each takes its time
and then comes to an outcome. When the clock is moved on, every event up to its new time happens.
-/

namespace CameraFleet.Polling

/-- The answer that a fetch gets, and the milliseconds until it is there. -/
structure Reply where
  latency : Nat
  outcome : Outcome

/-- A loop with a clock and the answers to come. -/
structure Timeline where
  now : Nat
  loop : Loop
  /-- The answers to the next fetches, the one in flight first. -/
  replies : List Reply
  /-- The answer to every later fetch. -/
  fallback : Reply

namespace Timeline

/-- A timeline whose loop begins at time 0. -/
def begin (interval : Nat) (replies : List Reply) (fallback : Reply) : Timeline :=
  ⟨0, .begin interval, replies, fallback⟩

/-- The answer to the fetch in flight. -/
def reply (t : Timeline) : Reply :=
  t.replies.headD t.fallback

/-- The next event that comes of itself, and its time. -/
def next? (t : Timeline) : Option (Nat × Event) :=
  match t.loop.phase with
  | .due since => some (since, .start)
  | .fetching since => some (since + t.reply.latency, .resolve t.reply.outcome)
  | .waiting since => some (since + t.loop.interval, .elapse)
  | .stopped => none

/-- The answers that are left after an event. -/
def repliesAfter (t : Timeline) : Event → List Reply
  | .resolve _ => t.replies.tail
  | _ => t.replies

/-- Lets an event happen now, if it can. -/
def happen (t : Timeline) (event : Event) : Timeline :=
  match t.loop.step? t.now event with
  | some loop => { t with loop, replies := t.repliesAfter event }
  | none => t

/-- Lets at most `count` events happen up to time `last`. -/
def runUntil (count : Nat) (last : Nat) (t : Timeline) : Timeline :=
  match count with
  | 0 => t
  | count + 1 =>
    match t.next? with
    | none => t
    | some (time, event) =>
      if time ≤ last then runUntil count last ({ t with now := time }.happen event) else t

/-- The events in a stretch of time: between two waits a fetch starts and ends, and a refresh that
was kept adds a fetch more. An interval is at least a millisecond. -/
def eventBound (span : Nat) : Nat := 3 * span + 6

/-- Moves the clock on by some milliseconds. -/
def advance (t : Timeline) (span : Nat) : Timeline :=
  { runUntil (eventBound span) (t.now + span) t with now := t.now + span }

end Timeline

end CameraFleet.Polling
