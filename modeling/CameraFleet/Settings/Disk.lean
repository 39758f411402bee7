import CameraFleet.Text.Split

/-!
# Disks

The files and directories that settings are read from. A path is followed component by component,
from the root if it begins with a slash and else from the working directory, above which nothing
is known.
-/

namespace CameraFleet.Settings

/-- Files and directories by the components of their paths. -/
structure Disk where
  files : List (List String × ByteArray)
  directories : List (List String)

namespace Disk

def empty : Disk := ⟨[], []⟩

/-- What a path leads to. -/
inductive Entry where
  | file (bytes : ByteArray)
  | directory

/-- The component that stands for the root. -/
def root : String := "/"

/-- Whether a path begins at the root. -/
def isAbsolute (path : String) : Bool :=
  path.toList.head? = some '/'

/-- The components of a path behind the root, those that name nothing left out. -/
def names (path : String) : List String :=
  ((Text.splitOn '/' path.toList).map String.ofList).filter fun c => c ≠ "" ∧ c ≠ "."

/-- The components of a path, those that name nothing left out. -/
def components (path : String) : List String :=
  if isAbsolute path then root :: names path else names path

/-- Whether the path is that of a directory, given or on the way to something. -/
def isDirectory (disk : Disk) (path : List String) : Bool :=
  path.isEmpty || path = [root] || disk.directories.any (path.isPrefixOf ·) ||
    disk.files.any fun (p, _) => path.isPrefixOf p && path ≠ p

/-- The directory above one whose components come in reverse. The root is above itself. -/
def above : List String → Option (List String)
  | [] => none
  | [c] => if c = root then some [c] else some []
  | _ :: up => some up

/-- Follows components from a directory, whose components come in reverse. Above the working
directory nothing is known but that it is a directory. -/
def walk (disk : Disk) : Option (List String) → List String → Option (Option (List String))
  | here, [] => some here
  | none, c :: rest => if c = ".." then walk disk none rest else none
  | some here, c :: rest =>
    if c = ".." then walk disk (above here) rest
    else if rest.isEmpty ∨ disk.isDirectory (c :: here).reverse then
      walk disk (some (c :: here)) rest
    else none

/-- Follows a path. -/
def follow (disk : Disk) (path : String) : Option (Option (List String)) :=
  disk.walk (some (if isAbsolute path then [root] else [])) (names path)

/-- Whether a path ends in a way that only directories do. -/
def wantsDirectory (path : String) : Bool :=
  match path.toList.reverse with
  | '/' :: _ => true
  | ['.'] | '.' :: '/' :: _ => true
  | _ => false

/-- What a path leads to, if anything. -/
def entry? (disk : Disk) (path : String) : Option Entry :=
  if path = "" then none
  else match disk.follow path with
    | none => none
    | some none => some .directory
    | some (some here) =>
      if disk.isDirectory here.reverse then some .directory
      else if wantsDirectory path then none
      else (disk.files.lookup here.reverse).map .file

def contains (disk : Disk) (path : String) : Bool :=
  (disk.entry? path).isSome

/-- The bytes of a file. -/
def file? (disk : Disk) (path : String) : Option ByteArray :=
  match disk.entry? path with
  | some (.file bytes) => some bytes
  | _ => none

/-- The text of a file, which has to be well-formed. -/
def text? (disk : Disk) (path : String) : Option String :=
  (disk.file? path).bind String.fromUTF8?

/-- The disk with a file written, which takes a directory for it and none in its place. -/
def write? (disk : Disk) (path : String) (bytes : ByteArray) : Option Disk :=
  if path = "" ∨ wantsDirectory path then none
  else match disk.follow path with
    | some (some here) =>
      let place := here.reverse
      if disk.isDirectory place then none
      else some { disk with files := (place, bytes) :: disk.files.filter (·.1 ≠ place) }
    | _ => none

/-- The files in the working directory itself. -/
def topFiles (disk : Disk) : List (String × ByteArray) :=
  disk.files.filterMap fun (place, bytes) =>
    match place with
    | [name] => some (name, bytes)
    | _ => none

end Disk

end CameraFleet.Settings
