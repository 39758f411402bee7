import CameraFleet.Camera

/-!
# The view of a fleet

What is known here of a fleet elsewhere: the cameras of the last snapshot that was fetched, and
whether a fetch has failed since that was last acknowledged. A snapshot is taken in place by place
and leaves nothing of the one before it.
-/

namespace CameraFleet.Polling

/-- What a fetch comes to: a snapshot of the cameras, or nothing where it failed. -/
abbrev Outcome := Option (List Camera)

/-- What is known of a fleet. -/
structure View where
  cameras : List Camera
  hasFailed : Bool
  /-- The fetches that are over, whatever they came to. -/
  completed : UInt64
  /-- The snapshots taken in, by which a reader can tell that there is a new one. -/
  version : Nat

namespace View

/-- The view before the first fetch. -/
def empty : View := ⟨[], false, 0, 0⟩

instance : Inhabited View := ⟨empty⟩

/-- Puts a camera in its place, which is at most the one behind the last. -/
def put (cameras : List Camera) (entry : Camera × Nat) : List Camera :=
  if entry.2 < cameras.length then cameras.set entry.2 entry.1 else cameras ++ [entry.1]

/-- The cameras after a snapshot: cut to its length, and then overwritten place by place. -/
def overwrite (cameras snapshot : List Camera) : List Camera :=
  snapshot.zipIdx.foldl put (cameras.take snapshot.length)

/-- Takes a snapshot in. -/
def reconcile (v : View) (snapshot : List Camera) : View :=
  { v with cameras := overwrite v.cameras snapshot, version := v.version + 1 }

/-- Takes in what a fetch came to. A failure is noted and leaves the cameras alone. -/
def record (v : View) (outcome : Outcome) : View :=
  let v := match outcome with
    | some snapshot => v.reconcile snapshot
    | none => { v with hasFailed := true }
  { v with completed := v.completed + 1 }

/-- Acknowledges that a fetch has failed. -/
def clearFailure (v : View) : View :=
  { v with hasFailed := false }

theorem foldl_put (snapshot : List Camera) (seen rest : List Camera)
    (h : rest.length ≤ snapshot.length) :
    (snapshot.zipIdx seen.length).foldl put (seen ++ rest) = seen ++ snapshot := by
  induction snapshot generalizing seen rest with
  | nil =>
    have : rest = [] := List.eq_nil_of_length_eq_zero (by simpa using h)
    simp [this]
  | cons c cs ih =>
    have step : put (seen ++ rest) (c, seen.length) = (seen ++ [c]) ++ rest.tail := by
      cases rest with
      | nil => simp [put]
      | cons d rest => simp [put]
    have hlen : (seen ++ [c]).length = seen.length + 1 := by simp
    rw [List.zipIdx_cons, List.foldl_cons, step, ← hlen, ih]
    · simp
    · simp only [List.length_tail]
      simp only [List.length_cons] at h
      omega

@[simp] theorem overwrite_eq (cameras snapshot : List Camera) :
    overwrite cameras snapshot = snapshot := by
  have h := foldl_put snapshot [] (cameras.take snapshot.length) (by
    simp only [List.length_take]; omega)
  simpa [overwrite] using h

end View

end CameraFleet.Polling
