import CameraFleet.Text.Blank
import CameraFleet.Text.Split

/-!
# File names from a server

The name of a file in the header Content-Disposition, reduced to its last component, so that it
never leads to another directory.
-/

namespace CameraFleet.Client.Disposition

def parameter : List Char := "filename=".toList

/-- What follows `parameter` in the first part that begins with it. -/
def parameter? (cs : List Char) : Option (List Char) :=
  ((Text.splitOn ';' cs).map (Text.stripBy Text.isBlank)).findSome? fun part =>
    if parameter.isPrefixOf part then some (part.drop parameter.length) else none

/-- The components of a path, of which empty ones and single dots say nothing. -/
def components (cs : List Char) : List (List Char) :=
  (Text.splitOn '/' cs).filter fun c => c ≠ [] ∧ c ≠ ['.']

/-- The last component of a path, unless it leads upwards. -/
def lastComponent? (cs : List Char) : Option (List Char) :=
  (components cs).getLast?.filter (· ≠ ['.', '.'])

/-- The name that the value of the header gives. Both slashes divide components. -/
def filename? (value : String) : Option String :=
  (parameter? value.toList).bind fun raw =>
    let path := (Text.stripBy (· = '\x22') raw).map fun c => if c = '\\' then '/' else c
    (lastComponent? path).map String.ofList

end CameraFleet.Client.Disposition
