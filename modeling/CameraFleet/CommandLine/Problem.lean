/-!
# Failing commands

Why a command ends without success, and what is said and returned then.
-/

namespace CameraFleet.CommandLine

inductive Problem where
  /-- The arguments make no command. -/
  | usage
  /-- What could not be done, and why. -/
  | failed (attempt reason : String)
  /-- The service cannot be put together, and the program breaks off. -/
  | broken
  deriving DecidableEq

namespace Problem

/-- The status with which the program ends. -/
def exitCode : Problem → UInt8
  | .usage => 2
  | .failed .. => 1
  | .broken => 101

/-- What is printed, the attempt in the first line. -/
def report : Problem → String
  | .usage => "error: invalid arguments\n"
  | .failed attempt reason => "Error: " ++ attempt ++ "\n\nCaused by:\n    " ++ reason ++ "\n"
  | .broken => "the service cannot be put together\n"

end Problem

end CameraFleet.CommandLine
