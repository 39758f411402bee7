import CameraFleet.Failure
import CameraFleet.Text.Split

/-!
# Preview templates

The address of a preview is a template in which width, height and index of the camera take the
place of their placeholders. The placeholders are replaced one kind after the other.
-/

namespace CameraFleet

namespace Preview

/-- The quantities that a template has placeholders for. -/
inductive Slot where
  | width
  | height
  | index
  deriving DecidableEq

/-- The placeholder of a quantity. -/
def Slot.placeholder : Slot → List Char
  | .width => "\x7bwidth\x7d".toList
  | .height => "\x7bheight\x7d".toList
  | .index => "\x7bindex\x7d".toList

/-- Whether a template shows both width and height. -/
def isComplete (text : String) : Bool :=
  Text.containsPart Slot.width.placeholder text.toList &&
    Text.containsPart Slot.height.placeholder text.toList

end Preview

/-- A template for the addresses of previews. -/
structure Preview where
  template : String
  deriving DecidableEq

namespace Preview

/-- The template of a placeholder image service. -/
def defaultTemplate : String :=
  "https://picsum.photos/\x7bwidth\x7d/\x7bheight\x7d"

instance : Inhabited Preview := ⟨⟨defaultTemplate⟩⟩

/-- A template has to show both width and height. -/
def ofText (text : String) : Except Failure Preview :=
  if isComplete text then .ok ⟨text⟩ else .error (.invalidTemplate text)

/-- The characters of a template with its placeholders replaced. -/
def fill (template width height index : List Char) : List Char :=
  Text.replaceAll Slot.index.placeholder index <|
    Text.replaceAll Slot.height.placeholder height <|
      Text.replaceAll Slot.width.placeholder width template

/-- The address of a preview. -/
def render (p : Preview) (index : Ident) (r : Resolution) : String :=
  String.ofList <| fill p.template.toList (Natural.digits r.width.toNat)
    (Natural.digits r.height.toNat) index.toText.toList

end Preview

end CameraFleet
