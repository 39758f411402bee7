import CameraFleet.Text.Ascii

/-!
# Tokens of HTTP

Methods and header names are tokens of visible ASCII characters without delimiters. Header names
have a length limit and are compared in small letters.
-/

namespace CameraFleet.Http

/-- The characters of tokens. -/
def isTokenChar (c : Char) : Bool :=
  c.isAlphanum ||
    c ∈ ['!', '#', '$', '%', '&', '\'', '*', '+', '-', '.', '^', '_', '\x60', '|', '~']

/-- Whether a text is the name of a method. -/
def isMethod (s : String) : Bool :=
  !s.isEmpty && s.toList.all isTokenChar

/-- The length that the name of a header stays below. -/
def headerNameLimit : Nat := 0x10000

/-- Whether a text is the name of a header. -/
def isHeaderName (s : String) : Bool :=
  !s.isEmpty && s.utf8ByteSize < headerNameLimit && s.toList.all isTokenChar

end CameraFleet.Http
