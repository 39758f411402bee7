import CameraFleet.Text.Blank
import CameraFleet.Url.Host

/-!
# Reading URLs

A text becomes a URL without regard to control characters and spaces around it, and to tabs and
line breaks anywhere. With one of the well-known schemes an authority has to follow, whatever
slashes are in front of it, and backslashes are slashes. Segments of dots are resolved, and
characters that cannot be in a part of a URL are escaped.
-/

namespace CameraFleet.Url

/-! ## Characters -/

/-- The characters in front of a URL and behind it that do not count. -/
def isMargin (c : Char) : Bool := c ≤ ' '

/-- The characters inside a URL that do not count. -/
def isBreak (c : Char) : Bool := c = '\t' || c = '\n' || c = '\r'

def isSchemeChar (c : Char) : Bool :=
  c.isAlphanum || c = '+' || c = '-' || c = '.'

/-- The visible characters that are in a part of a URL without an escape, the part being told by
those that are not. -/
def isKept (escaped : List Char) (c : Char) : Bool :=
  Host.isVisible c && c ∉ escaped

def queryEscaped (isSpecial : Bool) : List Char :=
  [' ', '\x22', '#', '<', '>'] ++ (if isSpecial then ['\''] else [])

def fragmentEscaped : List Char := [' ', '\x22', '<', '>', '\x60']

def pathEscaped : List Char := fragmentEscaped ++ ['#', '?', '{', '}']

def userEscaped : List Char :=
  pathEscaped ++ ['/', ':', ';', '=', '@', '[', '\\', ']', '^', '|']

def encodePart (escaped : List Char) (cs : List Char) : List Char :=
  Text.percentEncode (isKept escaped) cs

/-! ## Schemes -/

/-- The well-known schemes with an authority, and their ports. -/
def defaultPort? (scheme : String) : Option Nat :=
  match scheme with
  | "http" | "ws" => some 80
  | "https" | "wss" => some 443
  | "ftp" => some 21
  | _ => none

/-- What a scheme makes of what follows it. -/
inductive Kind where
  | special
  | file
  | other
  deriving DecidableEq

def Kind.ofScheme (scheme : String) : Kind :=
  if scheme = "file" then .file
  else if (defaultPort? scheme).isSome then .special
  else .other

/-- Whether a character is a slash with this kind of scheme. -/
def Kind.isSlash (k : Kind) (c : Char) : Bool :=
  c = '/' || (c = '\\' && k ≠ .other)

/-- The scheme in small letters, and what follows its colon. -/
def scheme? (cs : List Char) : Option (String × List Char) :=
  match cs.dropWhile isSchemeChar with
  | ':' :: rest =>
    if cs.head?.any Char.isAlpha then
      some (String.ofList ((cs.takeWhile isSchemeChar).map Char.toLower), rest)
    else none
  | _ => none

/-! ## Authorities -/

/-- A user with a password. An empty password is left out with its colon. -/
def userText (cs : List Char) : Option String :=
  let (name, password) := Text.cutAt ':' cs
  let encode := encodePart userEscaped
  match password with
  | some (c :: rest) => some (String.ofList (encode name ++ ':' :: encode (c :: rest)))
  | _ => if name = [] then none else some (String.ofList (encode name))

/-- The number of a port, where it is not the scheme's own, and what follows it. -/
def readPort (scheme : String) (cs : List Char) : Except Problem (Option Nat × List Char) :=
  let digits := cs.takeWhile Char.isDigit
  let rest := cs.dropWhile Char.isDigit
  let n := Nat.ofDigitChars 10 digits 0
  if UInt16.size ≤ n ∨ rest.head?.any (· ≠ '\\') then .error .invalidPort
  else if digits = [] ∨ defaultPort? scheme = some n then .ok (none, rest)
  else .ok (some n, rest)

/-- Whether brackets are open behind a character. -/
def staysInBrackets (inBrackets : Bool) (c : Char) : Bool :=
  c = '[' || (inBrackets && c ≠ ']')

/-- Cuts the host from the port behind it, whose colon is not in brackets. -/
def cutHost : Bool → List Char → List Char × Option (List Char)
  | _, [] => ([], none)
  | inBrackets, c :: cs =>
    if c = ':' ∧ !inBrackets then ([], some cs)
    else
      let (host, port) := cutHost (staysInBrackets inBrackets c) cs
      (c :: host, port)

/-- The authority of a text that ends with it, and what is left for the path. -/
def readAuthority (kind : Kind) (scheme : String) (cs : List Char) :
    Except Problem (Authority × List Char) := do
  let place := (cs.reverse.takeWhile (· ≠ '@')).reverse
  let user := (cs.take (cs.length - place.length)).dropLast
  let hasUser := place.length < cs.length
  let (hostText, portText) := cutHost false place
  let host ← if kind = .other then Host.plain hostText else Host.special hostText
  let user := if hasUser then userText user else none
  if host = .domain "" ∧ (portText.isSome ∨ user.isSome) then throw .emptyHost
  match portText with
  | none => return (⟨user, host, none⟩, [])
  | some portText =>
    let (port, rest) ← readPort scheme portText
    return (⟨user, host, port⟩, rest)

/-! ## Paths -/

/-- What a segment of dots says of the path. -/
inductive Dots where
  | here
  | up

/-- Whether a segment is one of dots, which may be escaped. -/
def Dots.ofSegment? (cs : List Char) : Option Dots :=
  let plain := Text.replaceAll ['%', '2', 'e'] ['.'] (cs.map Char.toLower)
  if plain = ['.'] then some .here else if plain = ['.', '.'] then some .up else none

/-- A letter with a colon, which begins a path on a disk. -/
def isDrive (cs : List Char) : Bool :=
  match cs with
  | [c, d] => c.isAlpha && (d = ':' || d = '|')
  | _ => false

/-- The path without its last segment. A drive stays. -/
def parent (kind : Kind) (segments : List (List Char)) : List (List Char) :=
  if kind = .file ∧ segments.length = 1 ∧ segments.all isDrive then segments
  else segments.dropLast

/-- The segment as the path has it. -/
def segment (kind : Kind) (isFirst : Bool) (cs : List Char) : List Char :=
  match cs with
  | [c, _] => if kind = .file ∧ isFirst ∧ isDrive cs then [c, ':'] else encodePart pathEscaped cs
  | _ => encodePart pathEscaped cs

/-- Resolves the dots in segments. A path that ends in dots ends in a slash. -/
def resolve (kind : Kind) (path : List (List Char)) : List (List Char) → List (List Char)
  | [] => path
  | cs :: rest =>
    match Dots.ofSegment? cs with
    | some .here => resolve kind (if rest = [] then path ++ [[]] else path) rest
    | some .up =>
      let path := parent kind path
      resolve kind (if rest = [] then path ++ [[]] else path) rest
    | none => resolve kind (path ++ [segment kind (path = []) cs]) rest

/-- The pieces between slashes. -/
def pieces (kind : Kind) (cs : List Char) : List (List Char) :=
  Text.splitOn '/' (cs.map fun c => if kind.isSlash c then '/' else c)

/-- The path of segments behind a slash. The path of a file has no empty segments in front. -/
def pathOf (kind : Kind) (cs : List Char) : String :=
  let segments := resolve kind [] (pieces kind cs)
  let path := List.intercalate ['/'] segments
  String.ofList ('/' :: if kind = .file then path.dropWhile (· = '/') else path)

/-- The path behind an authority. -/
def pathBehind (kind : Kind) (cs : List Char) : String :=
  match cs with
  | [] => if kind = .other then "" else "/"
  | c :: rest => if kind.isSlash c then pathOf kind rest else pathOf kind cs

/-! ## URLs -/

/-- The characters that end an authority or a path. -/
def isTail (c : Char) : Bool := c = '?' || c = '#'

/-- The query and the fragment. -/
def tail (kind : Kind) (cs : List Char) : Option String × Option String :=
  let (front, fragment) := Text.cutAt '#' cs
  let query := match front with
    | _ :: query => some (String.ofList (encodePart (queryEscaped (kind ≠ .other)) query))
    | [] => none
  (query, fragment.map fun cs => String.ofList (encodePart fragmentEscaped cs))

/-- The URL of a text behind the slashes in front of its authority. -/
def withAuthority (kind : Kind) (scheme : String) (cs tailText : List Char) :
    Except Problem Url := do
  let front := cs.takeWhile (!kind.isSlash ·)
  let behind := cs.dropWhile (!kind.isSlash ·)
  if front = ['@'] ∧ (behind ≠ [] ∨ tailText ≠ []) then throw .emptyHost
  let (authority, rest) ← readAuthority kind scheme front
  let (query, fragment) := tail kind tailText
  return ⟨scheme, some authority, pathBehind kind (rest ++ behind), query, fragment⟩

/-- The host of a file, which is left out when it is this machine. -/
def fileHost (cs : List Char) : Except Problem Host :=
  if cs = [] then .ok (.domain "")
  else (Host.special cs).map fun host => if host = .domain "localhost" then .domain "" else host

/-- Whether the path behind a host begins with a drive. -/
def beginsOnDrive (cs : List Char) : Bool :=
  match cs with
  | [] => false
  | _ :: rest => (resolve .file [] (pieces .file rest)).head?.any isDrive

/-- The URL of a file. Two slashes are in front of a host, unless a drive follows. A drive behind
the host makes it left out. -/
def ofFile (cs tailText : List Char) : Except Problem Url := do
  let isSlash := Kind.file.isSlash
  let (query, fragment) := tail .file tailText
  match cs with
  | a :: b :: rest =>
    if isSlash a ∧ isSlash b then
      let hostText := rest.takeWhile (!isSlash ·)
      if isDrive hostText then
        return ⟨"file", some ⟨none, .domain "", none⟩, pathOf .file rest, query, fragment⟩
      else
        let host ← fileHost hostText
        let behind := rest.dropWhile (!isSlash ·)
        let host := if beginsOnDrive behind then .domain "" else host
        return ⟨"file", some ⟨none, host, none⟩, pathBehind .file behind, query, fragment⟩
    else return ⟨"file", some ⟨none, .domain "", none⟩, pathBehind .file cs, query, fragment⟩
  | _ => return ⟨"file", some ⟨none, .domain "", none⟩, pathBehind .file cs, query, fragment⟩

/-- The URL of a text behind a scheme that is not well-known. -/
def ofOther (scheme : String) (cs tailText : List Char) : Except Problem Url :=
  let (query, fragment) := tail .other tailText
  match cs with
  | '/' :: '/' :: rest => withAuthority .other scheme rest tailText
  | '/' :: rest => .ok ⟨scheme, none, pathOf .other rest, query, fragment⟩
  | _ =>
    let path := String.ofList (Text.percentEncode Host.isVisible cs)
    .ok ⟨scheme, none, path, query, fragment⟩

/-- The URL that a text is. -/
def ofText (s : String) : Except Problem Url :=
  match scheme? ((Text.stripBy isMargin s.toList).filter (!isBreak ·)) with
  | none => .error .relative
  | some (scheme, rest) =>
    let cs := rest.takeWhile (!isTail ·)
    let tailText := rest.dropWhile (!isTail ·)
    match Kind.ofScheme scheme with
    | .special => withAuthority .special scheme (cs.dropWhile Kind.special.isSlash) tailText
    | .file => ofFile cs tailText
    | .other => ofOther scheme cs tailText

end CameraFleet.Url
