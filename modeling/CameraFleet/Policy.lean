import CameraFleet.Text.Blank

/-!
# Quality policies

What happens to a quality that the active format does not allow.
-/

namespace CameraFleet

inductive Policy where
  /-- The value is stored as it is. -/
  | permissive
  /-- The change is refused. -/
  | strict
  /-- The nearest legal value is stored. -/
  | clamp
  deriving DecidableEq, Inhabited

namespace Policy

def toText : Policy → String
  | .permissive => "permissive"
  | .strict => "strict"
  | .clamp => "clamp"

/-- The policy with exactly this name. -/
def named? (s : String) : Option Policy :=
  if s = "permissive" then some .permissive
  else if s = "strict" then some .strict
  else if s = "clamp" then some .clamp
  else none

/-- A text that names no policy, as it was looked up. -/
structure Unknown where
  name : String
  deriving DecidableEq

def Unknown.message (e : Unknown) : String :=
  "unknown quality policy '" ++ e.name ++ "' (expected permissive, strict or clamp)"

/-- The name that a text gives: without the blanks around it, and with small letters. -/
def nameOf (s : String) : String :=
  String.ofList ((Text.stripBy Text.isBlank s.toList).map Char.toLower)

/-- The policy that a text names, whatever the case of its letters and the blanks around it. -/
def ofText (s : String) : Except Unknown Policy :=
  match named? (nameOf s) with
  | some p => .ok p
  | none => .error ⟨nameOf s⟩

end Policy

end CameraFleet
