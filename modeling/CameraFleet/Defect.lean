import CameraFleet.Ident

/-!
# Defects

What can be wrong with the data of a camera, and with a quality that is asked for.
-/

namespace CameraFleet

inductive Defect where
  /-- The active format is none of the formats. -/
  | unknownActiveFormat (camera format : Ident)
  | duplicateFormat (camera format : Ident)
  /-- The description is not that of the active format. -/
  | staleDescription (camera : Ident)
  | invalidQualityRange (format : Ident) (reason : String)
  /-- The quality asked for is no whole number of 32 bits. -/
  | unrepresentableQuality (value : String)
  deriving DecidableEq

def Defect.message : Defect → String
  | .unknownActiveFormat camera format =>
    "camera " ++ camera.toText ++ ": active format " ++ format.toText ++
      " is not a supported format"
  | .duplicateFormat camera format =>
    "camera " ++ camera.toText ++ ": format id " ++ format.toText ++ " is listed more than once"
  | .staleDescription camera =>
    "camera " ++ camera.toText ++ ": format description does not match the active format"
  | .invalidQualityRange format reason =>
    "format " ++ format.toText ++ ": invalid quality range (" ++ reason ++ ")"
  | .unrepresentableQuality value =>
    "quality " ++ value ++ " is not a whole number in u32 range"

end CameraFleet
