import CameraFleet.Capture
import CameraFleet.Client
import CameraFleet.CommandLine.Arguments
import CameraFleet.CommandLine.Duration
import CameraFleet.CommandLine.Problem
import CameraFleet.Settings.Disk

/-!
# Using a service

The command line of the client: it lists cameras, changes the configuration of one, locates a
still image, saves a raw capture, or keeps watching.
-/

namespace CameraFleet.CommandLine

namespace Watch

inductive Command where
  /-- Polls the cameras, with an interval in nanoseconds. -/
  | watch (interval : Option Nat)
  /-- Prints the cameras. -/
  | list
  /-- Changes the format and the quality of a camera. -/
  | set (index : String) (format : Option String) (quality : Option UInt32)
  /-- Prints where a still image is. -/
  | locate (index : String)
  /-- Saves the raw capture of a camera, in a file with this path if one is given. -/
  | save (index : String) (out : Option String)
  deriving DecidableEq

end Watch

/-- What the command line says: the URL of the service, how many nanoseconds to wait for an
answer, and what to do. -/
structure Watch where
  server : String
  timeout : Option Nat
  command : Watch.Command
  deriving DecidableEq

namespace Watch

/-- The URL where none is given. -/
def defaultServer : String := "http://127.0.0.1:8080"

/-- The options in front of a command. -/
def flags : List Flag := [.valued "server", .valued "timeout"]

/-- Reads a command and its options. -/
def command? : List String → Option Command
  | [] => none
  | name :: args =>
    match name with
    | "watch" => do
      let given ← onlyFlags? [.valued "interval"] args
      return .watch (← readValue? Duration.parse? (given.lookup "interval"))
    | "list" => (onlyFlags? [] args).map fun _ => .list
    | "set" => do
      let given ← onlyFlags? [.valued "index", .valued "format", .valued "quality"] args
      let quality ← readValue? (number? UInt32.size) (given.lookup "quality")
      return .set (← given.lookup "index") (given.lookup "format") (quality.map UInt32.ofNat)
    | "capture" => do
      let given ← onlyFlags? [.valued "index", .plain "raw", .valued "out"] args
      let out ← readValue? path? (given.lookup "out")
      let index ← given.lookup "index"
      return if (given.lookup "raw").isSome then .save index out else .locate index
    | _ => none

/-- Reads the arguments, which the environment adds to. -/
def ofArguments? (args : List String) (env : Settings.Environment) : Option Watch := do
  let (given, rest) ← readFlags flags [] args
  let timeout ← readValue? Duration.parse? (given.lookup "timeout")
  let command ← command? rest
  return ⟨(given.value? "server" "FERROCAM_URL" env).getD defaultServer, timeout, command⟩

/-- What a command comes to. -/
inductive Report where
  | printed (text : String)
  | saved (path : String) (bytes : ByteArray)
  /-- The cameras are watched with this interval in nanoseconds. -/
  | watching (interval : Nat)

/-- The path of the file for a raw capture: the one given, or the name from the server, or else
the name that the service would give it. -/
def savePath (index : Ident) (out : Option String) (d : Download) : String :=
  out.getD (d.filename.getD (Capture.filename index))

/-- The default interval in nanoseconds. -/
def defaultInterval : Nat := 3 * Duration.second

/-- A failed call. -/
def failed (attempt : String) (e : Client.Error) : Except Problem Report :=
  .error (.failed attempt e.message)

variable {σ : Type} (client : Client) (link : Link σ)

/-- Executes a command. -/
def Command.execute (command : Command) (s : σ) : Except Problem Report × σ :=
  match command with
  | .watch interval => (.ok (.watching (interval.getD defaultInterval)), s)
  | .list =>
    match client.fetchCameras link s with
    | (.ok cameras, s) =>
      (.ok (.printed (Json.renderPretty (.list (cameras.map Camera.toDatum)) ++ "\n")), s)
    | (.error e, s) => (failed "failed to fetch cameras" e, s)
  | .set index format quality =>
    match client.setConfig link (.ofText index) ⟨format.map .ofText, quality⟩ s with
    | (.ok confirmation, s) => (.ok (.printed (confirmation.message ++ "\n")), s)
    | (.error e, s) => (failed ("failed to configure camera " ++ index) e, s)
  | .locate index =>
    match client.imageLocation link (.ofText index) s with
    | (.ok location, s) => (.ok (.printed (location ++ "\n")), s)
    | (.error e, s) => (failed ("capture of camera " ++ index ++ " failed") e, s)
  | .save index out =>
    match client.download link (.ofText index) s with
    | (.ok download, s) =>
      (.ok (.saved (savePath (.ofText index) out download) download.bytes), s)
    | (.error e, s) => (failed ("raw capture of camera " ++ index ++ " failed") e, s)

/-- Does what the command line says, over a link to the server. -/
def execute (c : Watch) (s : σ) : Except Problem Report × σ :=
  match Client.ofText c.server with
  | .error e => (failed ("invalid server URL " ++ c.server) e, s)
  | .ok client => c.command.execute client link s

/-- Does what arguments say, over a link to the server. -/
def run (args : List String) (env : Settings.Environment) (s : σ) : Except Problem Report × σ :=
  match ofArguments? args env with
  | none => (.error .usage, s)
  | some c => c.execute link s

/-- Writes what a command saves. -/
def Report.write (r : Report) (disk : Settings.Disk) : Except Problem Settings.Disk :=
  match r with
  | .saved path bytes =>
    match disk.write? path bytes with
    | some disk => .ok disk
    | none => .error (.failed ("failed to write " ++ path) "the file cannot be created")
  | _ => .ok disk

end Watch

end CameraFleet.CommandLine
