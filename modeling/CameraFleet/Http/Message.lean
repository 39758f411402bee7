import CameraFleet.Http.Token
import CameraFleet.Json.Writer
import CameraFleet.Text.Split

/-!
# Requests and responses

Messages with headers, whose names are compared in small letters, and bodies of bytes. The target
of a request is a path with a query, or an address that contains them.
-/

namespace CameraFleet.Http

/-- The headers of a message, in their order. -/
abbrev Headers := List (String × String)

/-- The value of the first header with a name in small letters. -/
def Headers.get? (hs : Headers) (name : String) : Option String :=
  (hs.find? fun h => Text.lower h.1 = name).map (·.2)

structure Request where
  method : String
  target : String
  headers : Headers
  body : ByteArray

structure Response where
  status : Nat
  headers : Headers
  body : ByteArray

/-! ## Targets -/

/-- A path, and the query behind it where there is one. -/
structure Target where
  path : String
  query : Option String
  deriving DecidableEq

/-- What follows the scheme and the authority, where an address has both. -/
def afterAuthority? (cs : List Char) : Option (List Char) :=
  match cs.dropWhile (· ≠ ':') with
  | ':' :: '/' :: '/' :: rest =>
    some (rest.dropWhile fun c => c ≠ '/' ∧ c ≠ '?')
  | _ => none

/-- The path and the query of a text, without the fragment. -/
def Target.ofText (s : String) : Target :=
  let cs := s.toList.takeWhile (· ≠ '#')
  let local? := if cs.head? = some '/' then none else afterAuthority? cs
  let (path, query) := Text.cutAt '?' (local?.getD cs)
  let path := if local?.isSome ∧ path = [] then ['/'] else path
  ⟨String.ofList path, query.map String.ofList⟩

/-! ## Values of headers -/

/-- Whether a text can be the value of a header: no control character but the tab. -/
def isHeaderValue (s : String) : Bool :=
  s.toList.all fun c => ' ' ≤ c && c ≠ '\x7f' || c = '\t'

/-- Whether a value of a header can be read as a text: visible ASCII characters, the space and
the tab. -/
def isReadableValue (s : String) : Bool :=
  s.toList.all fun c => ' ' ≤ c && c < '\x7f' || c = '\t'

namespace Response

def plainText : String := "text/plain; charset=utf-8"

/-- A response without a body. -/
def empty (status : Nat) : Response := ⟨status, [], .empty⟩

/-- A response with a text. -/
def text (status : Nat) (s : String) : Response :=
  ⟨status, [("content-type", plainText)], s.toUTF8⟩

/-- A response with a document. -/
def json (status : Nat) (d : Datum) : Response :=
  ⟨status, [("content-type", "application/json")], (Json.render d).toUTF8⟩

/-- A response with these headers, or, where one has a value that cannot be sent, a text that
says so with status `failing`. -/
def withHeaders (status failing : Nat) (headers : Headers) (body : ByteArray) : Response :=
  if headers.all (isHeaderValue ·.2) then ⟨status, headers, body⟩
  else text failing "failed to parse header value"

end Response

end CameraFleet.Http
