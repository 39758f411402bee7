/-!
# Paths

Paths are texts with components between slashes. A path is printed as it was put together, so
joining and taking the parent work on the text.
-/

namespace CameraFleet.Settings.Path

def isAbsolute (path : String) : Bool :=
  path.toList.head? = some '/'

/-- The path without slashes and empty components at its end; a leading slash and a leading dot
stay. -/
def trimEnd (cs : List Char) : List Char :=
  (go cs.reverse).reverse
where
  /-- The same on the characters from the last to the first. -/
  go : List Char → List Char
    | ['/'] => ['/']
    | '/' :: rest => go rest
    | '.' :: '/' :: rest => if rest.isEmpty then ['/'] else go rest
    | cs => cs

/-- The directory that a path is in. A root and an empty path are in none. -/
def parent? (path : String) : Option String :=
  match (trimEnd path.toList).reverse with
  | [] | ['/'] => none
  | cs => some (String.ofList (trimEnd (cs.dropWhile (· ≠ '/')).reverse))

/-- A path from a directory. An absolute path is taken as it is. -/
def join (dir path : String) : String :=
  if isAbsolute path then path
  else if dir = "" ∨ dir.toList.getLast? = some '/' then dir ++ path
  else dir ++ "/" ++ path

/-- A path that stands in a file: a relative one is taken from the directory of the file. -/
def resolve (path : String) (file : Option String) : String :=
  if isAbsolute path then path
  else match file.bind parent? with
    | some dir => join dir path
    | none => path

end CameraFleet.Settings.Path
