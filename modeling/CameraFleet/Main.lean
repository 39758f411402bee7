import CameraFleet.CommandLine.Serve
import CameraFleet.CommandLine.Watch
import CameraFleet.Http.Transfer
import CameraFleet.Polling.View
import Std.Async.DNS
import Std.Async.TCP
import Std.Async.Timer
import Std.Time

/-!
# The programs

The service and its client on this machine. The first argument tells which one is meant: `server`
or `watch`.
-/

namespace CameraFleet.Program

open Std.Async

/-- The present time. -/
def now : IO String := do
  let time ← Std.Time.DateTime.now
  return time.toISO8601String

/-- Prints why a command fails, and gives the status with which the program ends. -/
def report (problem : CommandLine.Problem) : IO UInt32 := do
  IO.eprint problem.report
  return problem.exitCode.toUInt32

/-! ## Files -/

/-- Whether a path is that of a directory. -/
def isDirectory (path : String) : IO Bool := do
  try return ← (← IO.FS.realPath path).isDir
  catch _ => return false

/-- Adds a file to the disk, or a directory, where it is there. -/
def readInto (disk : Settings.Disk) (path : String) : IO Settings.Disk := do
  let place := Settings.Disk.components path
  try
    let bytes ← IO.FS.readBinFile path
    return { disk with files := (place, bytes) :: disk.files }
  catch _ =>
    if ← isDirectory path then return { disk with directories := place :: disk.directories }
    else return disk

/-- The file that could not be read. -/
def missing? : Settings.LoadError → Option String
  | .missingConfig path | .unreadable path => some path
  | _ => none

/-- Reads the files that loading the settings asks for, at most `count` besides the usual ones. -/
def readDisk (options : Settings.LoadOptions) (env : Settings.Environment) (count : Nat)
    (disk : Settings.Disk) (seen : List String) : IO Settings.Disk := do
  match count, Settings.load disk options env with
  | count + 1, .error e =>
    match missing? e with
    | some path =>
      if path ∈ seen then return disk
      else readDisk options env count (← readInto disk path) (path :: seen)
    | none => return disk
  | _, _ => return disk

/-! ## The service -/

/-- Answers the request on a connection. -/
partial def answer (state : IO.Ref Service) (client : TCP.Socket.Client) (bytes : ByteArray) :
    Async Unit := do
  match Http.Transfer.request? (Service.bodyLimit + 1) bytes with
  | some request =>
    let time ← now
    let response ← state.modifyGet fun s => s.respond time request
    client.send (Http.Transfer.responseBytes response)
    client.shutdown
  | none =>
    match ← client.recv? 65536 with
    | some more => answer state client (bytes ++ more)
    | none => client.shutdown

/-- Answers one connection after the other. -/
partial def answerAll (state : IO.Ref Service) (server : TCP.Socket.Server) : Async Unit := do
  let client ← server.accept
  try answer state client .empty
  catch e => IO.eprintln e
  answerAll state server

/-- The address of a host. -/
def ipv4 (a : Network.Ipv4) : Std.Net.IPv4Addr :=
  let byte (n : Nat) : UInt8 := UInt8.ofNat (a.bytes.getD n 0)
  .ofParts (byte 0) (byte 1) (byte 2) (byte 3)

def ipv6 (a : Network.Ipv6) : Std.Net.IPv6Addr :=
  let group (n : Nat) : UInt16 := UInt16.ofNat (a.groups.getD n 0)
  .ofParts (group 0) (group 1) (group 2) (group 3) (group 4) (group 5) (group 6) (group 7)

def socketAddress : Network.SocketAddress → Std.Net.SocketAddress
  | .v4 address port => .v4 ⟨ipv4 address, UInt16.ofNat port⟩
  | .v6 address _ port => .v6 ⟨ipv6 address, UInt16.ofNat port⟩

/-- Listens on an address and answers until the program is interrupted. -/
def listen (service : Service) (address : Network.SocketAddress) : IO UInt32 := do
  let server ← TCP.Socket.Server.mk
  try
    server.bind (socketAddress address)
    server.listen 128
  catch e => return ← report (CommandLine.Serve.bindProblem address (toString e))
  let state ← IO.mkRef service
  (answerAll state server).block
  return 0

def serve (args : List String) (env : Settings.Environment) : IO UInt32 := do
  match CommandLine.Serve.ofArguments? args env with
  | none => report .usage
  | some command =>
    let options : Settings.LoadOptions := ⟨command.configPath, command.envFile⟩
    let usual := options.envFile.getD ".env" :: Settings.defaultPaths
    let disk ← readDisk options env 4 (← usual.foldlM readInto .empty) usual
    match command.start disk env with
    | .error problem => report problem
    | .ok (service, address) => listen service address

/-! ## The client -/

/-- The address of a server. -/
def resolve (host : Url.Host) (port : Nat) : Async Std.Net.SocketAddress := do
  let port := UInt16.ofNat port
  match host with
  | .ipv4 address => return .v4 ⟨ipv4 address, port⟩
  | .ipv6 address => return .v6 ⟨ipv6 address, port⟩
  | .domain name =>
    match (← DNS.getAddrInfo name "").toList with
    | .v4 address :: _ => return .v4 ⟨address, port⟩
    | .v6 address :: _ => return .v6 ⟨address, port⟩
    | [] => throw (IO.userError "unknown host")

partial def receiveAll (client : TCP.Socket.Client) (bytes : ByteArray) : Async ByteArray := do
  match ← client.recv? 65536 with
  | some more => receiveAll client (bytes ++ more)
  | none => return bytes

/-- Gives up after some milliseconds. -/
def giveUpAfter (milliseconds : Nat) : Async ByteArray := do
  sleep (.ofNat milliseconds)
  throw (IO.userError "no answer in time")

/-- Sends a request and waits for the response, for some nanoseconds if so many are given. -/
def send (client : Client) (timeout : Option Nat) (request : Http.Request) :
    IO (Option Http.Response) := do
  match client.server? with
  | none => return none
  | some (host, port) =>
    let exchange : Async ByteArray := do
      let socket ← TCP.Socket.Client.mk
      socket.connect (← resolve host port)
      socket.send (Http.Transfer.requestBytes host.text request)
      receiveAll socket .empty
    let answer := match timeout with
      | some limit => Async.race exchange (giveUpAfter (limit / 1000000))
      | none => exchange
    try return Http.Transfer.response? (← answer.block)
    catch _ => return none

/-- Makes a call whose request and answer go over the network. -/
def call {α : Type} (client : Client) (timeout : Option Nat)
    (make : {σ : Type} → Link σ → σ → α × σ) : IO α := do
  let asked := (make (fun _ request => (none, some request)) none).2
  let answered ← match asked with
    | some request => send client timeout request
    | none => pure none
  return (make (fun s _ => (answered, s)) ()).1

/-- A camera in a line. -/
def cameraLine (c : Camera) : String :=
  " ".intercalate
    [c.index.toText, c.name.getD "-", c.description.getD "?", c.frameRate.plain]

/-- Fetches and prints the cameras again and again, with an interval in milliseconds. -/
partial def poll (client : Client) (timeout : Option Nat) (interval : UInt32)
    (view : Polling.View) : IO UInt32 := do
  let fetched ← call client timeout fun link s => client.fetchCameras link s
  let next := view.record fetched.toOption
  if next.version ≠ view.version then
    IO.eprintln s!"camera snapshot of {next.cameras.length}"
    next.cameras.forM fun c => IO.eprintln (cameraLine c)
  if next.hasFailed && !view.hasFailed then
    IO.eprintln "network error while polling; the camera list may be stale"
  IO.sleep interval
  poll client timeout interval next

/-- Shows or saves what a command came to. -/
def finish (client : Client) (timeout : Option Nat) (result : CommandLine.Watch.Report) :
    IO UInt32 := do
  match result with
  | .printed text =>
    IO.print text
    return 0
  | .saved path bytes =>
    try
      IO.FS.writeBinFile path bytes
      return 0
    catch e => report (.failed s!"failed to write {path}" (toString e))
  | .watching interval => poll client timeout (UInt32.ofNat (interval / 1000000)) .empty

def watch (args : List String) (env : Settings.Environment) : IO UInt32 := do
  match CommandLine.Watch.ofArguments? args env with
  | none => report .usage
  | some command =>
    match Client.ofText command.server with
    | .error e => report (.failed ("invalid server URL " ++ command.server) e.message)
    | .ok client =>
      match ← call client command.timeout fun link s => command.command.execute client link s with
      | .error problem => report problem
      | .ok result => finish client command.timeout result

end CameraFleet.Program

open CameraFleet in
def main (args : List String) : IO UInt32 := do
  let env := (← Std.Internal.UV.System.osEnviron).toList
  match args with
  | "server" :: rest => Program.serve rest env
  | "watch" :: rest => Program.watch rest env
  | _ => Program.report .usage
