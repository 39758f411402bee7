import CameraFleet.Text.Percent
import CameraFleet.Text.Split
import CameraFleet.Text.Utf8

/-!
# Form data

Names and values in the query of a request, as forms encode them: pairs between ampersands, an
equals sign in each, a plus sign for a space, and a percent sign with two hexadecimal digits for
any byte. Reading is lenient: a percent sign that no digits follow stands for itself, and bytes
that are no text are replaced.
-/

namespace CameraFleet.Http.Form

/-- The characters that stand for themselves. -/
def isPlain (c : Char) : Bool :=
  c.isAlphanum || c = '*' || c = '-' || c = '.' || c = '_'

/-- A character as a form has it. -/
def encodeChar (c : Char) : List Char :=
  if isPlain c then [c] else if c = ' ' then ['+'] else Text.percentEscapeChar c

/-- A text as a form has it. -/
def encode (s : String) : String :=
  String.ofList (s.toList.flatMap encodeChar)

/-- The text that an encoded text stands for. -/
def decode (cs : List Char) : String :=
  Utf8.decodeLossy ⟨(Text.percentDecode (cs.map fun c => if c = '+' then ' ' else c)).toArray⟩

/-- A name and its value, which is empty where there is no equals sign. -/
def pair (cs : List Char) : String × String :=
  let (name, value) := Text.cutAt '=' cs
  (decode name, (value.map decode).getD "")

/-- The names and values of a query, in their order. -/
def pairs (query : String) : List (String × String) :=
  ((Text.splitOn '&' query.toList).filter (· ≠ [])).map pair

end CameraFleet.Http.Form
