import CameraFleet.Camera

/-!
# Failures

Why a fleet cannot be set up, a camera cannot be configured or an image cannot be had.
-/

namespace CameraFleet

inductive Failure where
  | missingParameter (name : String)
  | notFound (index : Ident)
  | invalidFormat (index format : Ident)
  | invalidQuality (index : Ident) (quality min max : UInt32)
  | invalidSeed (defect : Defect)
  | duplicateIndex (index : Ident)
  | invalidTemplate (template : String)
  | capture (reason : String)
  deriving DecidableEq

def Failure.message : Failure → String
  | .missingParameter name => "missing required parameter `" ++ name ++ "`"
  | .notFound index => "camera " ++ index.toText ++ " not found"
  | .invalidFormat index format =>
    "camera " ++ index.toText ++ ": image format " ++ format.toText ++ " is not supported"
  | .invalidQuality index quality min max =>
    "camera " ++ index.toText ++ ": quality " ++ Natural.toText quality.toNat ++
      " is not a legal value in " ++ Natural.toText min.toNat ++ "..=" ++ Natural.toText max.toNat
  | .invalidSeed defect => "invalid camera definition: " ++ defect.message
  | .duplicateIndex index => "camera index " ++ index.toText ++ " is defined more than once"
  | .invalidTemplate template =>
    "invalid preview template `" ++ template ++
      "`: it must contain \x7bwidth\x7d and \x7bheight\x7d"
  | .capture reason => "capture failed: " ++ reason

end CameraFleet
