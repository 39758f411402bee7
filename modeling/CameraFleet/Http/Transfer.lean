import CameraFleet.Http.Message
import CameraFleet.Number.Natural
import CameraFleet.Text.Blank
import CameraFleet.Text.Utf8

/-!
# Messages on a connection

A message as bytes: a first line, a line for each header, an empty line, and the body, whose
length is in a header. A connection carries one request and its response.
-/

namespace CameraFleet.Http.Transfer

/-- The lines in front of a body. -/
def headText (first : String) (headers : Headers) : String :=
  String.join ((first :: headers.map fun h => h.1 ++ ": " ++ h.2).map (· ++ "\r\n")) ++ "\r\n"

def lengthHeader (body : ByteArray) : String × String :=
  ("content-length", Natural.toText body.size)

/-- The bytes of a request to a host. -/
def requestBytes (host : String) (r : Request) : ByteArray :=
  (headText (r.method ++ " " ++ r.target ++ " HTTP/1.1")
    ([("host", host), ("connection", "close")] ++ r.headers ++ [lengthHeader r.body])).toUTF8 ++
    r.body

/-- The bytes of a response. -/
def responseBytes (r : Response) : ByteArray :=
  (headText ("HTTP/1.1 " ++ Natural.toText r.status ++ " ")
    (r.headers ++ [("connection", "close"), lengthHeader r.body])).toUTF8 ++ r.body

/-- The bytes before the first empty line, and those behind it. -/
def cutHead? : List UInt8 → Option (List UInt8 × List UInt8)
  | 13 :: 10 :: 13 :: 10 :: rest => some ([], rest)
  | b :: rest => (cutHead? rest).map fun (head, body) => (b :: head, body)
  | [] => none

/-- What is in front of a body. -/
structure Head where
  first : List String
  headers : Headers
  deriving DecidableEq

/-- A header in its line. -/
def header? (line : List Char) : Option (String × String) :=
  match Text.cutAt ':' line with
  | (name, some value) =>
    some (String.ofList name, String.ofList (Text.stripBy Text.isBlank value))
  | _ => none

/-- The head of a message, and the bytes behind it. -/
def head? (bytes : ByteArray) : Option (Head × List UInt8) := do
  let (head, rest) ← cutHead? bytes.data.toList
  let text := (Utf8.decodeLossy ⟨head.toArray⟩).toList.filter (· ≠ '\r')
  match Text.splitOn '\n' text with
  | [] => none
  | first :: lines =>
    return (⟨(Text.splitOn ' ' first).map String.ofList, lines.filterMap header?⟩, rest)

/-- The length of the body that a head announces. -/
def Head.length? (h : Head) : Option Nat :=
  (h.headers.get? "content-length").bind fun s => Natural.ofDigits? s.toList

/-- A request, once its bytes are there. At most `most` bytes of a body are looked at. -/
def request? (most : Nat) (bytes : ByteArray) : Option Request := do
  let (head, rest) ← head? bytes
  let length := min (head.length?.getD 0) most
  match head.first with
  | method :: target :: _ =>
    if length ≤ rest.length then
      return ⟨method, target, head.headers, ⟨(rest.take length).toArray⟩⟩
    else none
  | _ => none

/-- A response whose bytes are all there. -/
def response? (bytes : ByteArray) : Option Response := do
  let (head, rest) ← head? bytes
  match head.first with
  | _ :: status :: _ =>
    let status ← Natural.ofDigits? status.toList
    let length := head.length?.getD rest.length
    if rest.length < length then none
    else return ⟨status, head.headers, ⟨(rest.take length).toArray⟩⟩
  | _ => none

end CameraFleet.Http.Transfer
