import CameraFleet.Camera

/-!
# The demo fleet

Three cameras with two or three capture modes each, for a service without a device list.
-/

namespace CameraFleet.DemoFleet

/-- A numbered format with a range of qualities. -/
def format (id : UInt64) (description : String) (min max step default : UInt32) : ImageFormat :=
  ⟨.number id, description, some ⟨min, max, some step, some default⟩, none⟩

/-- A numbered camera whose views of its active format are still to be filled in. -/
def camera (index : UInt64) (name : String) (frameRate : Int) (active : UInt64)
    (quality width height : UInt32) (formats : List ImageFormat) : Camera :=
  ⟨.number index, some name, "", .ofInt frameRate, .number active, none, some quality,
    ⟨width, height⟩, formats⟩

def cameras : List Camera :=
  [camera 0 "Front Camera" 30 1 85 640 480
      [format 1 "RGB 5-6-5 640x480" 50 100 5 85,
        format 2 "RGB 8-8-8 640x480" 80 100 1 95],
    camera 1 "Back Camera" 25 1 90 1920 1080
      [format 1 "RGB 5-6-5 1920x1080" 50 100 5 90,
        format 2 "RGB 8-8-8 1920x1080" 80 100 1 95,
        format 3 "RGB 8-8-8 1080x720" 60 100 10 80],
    camera 2 "Side Camera" 15 2 95 800 600
      [format 1 "RGB 8-8-8 800x600" 50 100 5 85,
        format 2 "YUV 4-2-2 800x600" 80 100 1 95]]

end CameraFleet.DemoFleet
