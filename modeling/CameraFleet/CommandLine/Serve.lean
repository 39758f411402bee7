import CameraFleet.CommandLine.Arguments
import CameraFleet.CommandLine.Problem
import CameraFleet.Service
import CameraFleet.Settings.Loading

/-!
# Starting the service

The command line of the service: where its settings are, and the address to listen on if it is
not the one in the settings.
-/

namespace CameraFleet.CommandLine

/-- What the command line says. -/
structure Serve where
  configPath : Option String
  envFile : Option String
  port : Option UInt16
  host : Option String
  deriving DecidableEq

namespace Serve

def flags : List Flag :=
  [⟨"config", some 'c', true⟩, .valued "env-file", ⟨"port", some 'p', true⟩, .valued "host"]

/-- The number of a port. -/
def port? (s : String) : Option UInt16 :=
  (number? UInt16.size s).map UInt16.ofNat

/-- Reads the arguments, which the environment adds to. -/
def ofArguments? (args : List String) (env : Settings.Environment) : Option Serve := do
  let given ← onlyFlags? flags args
  let configPath ← readValue? path? (given.value? "config" "FERROCAM_CONFIG" env)
  let envFile ← readValue? path? (given.lookup "env-file")
  let port ← readValue? port? (given.value? "port" "SERVER_PORT" env)
  return ⟨configPath, envFile, port, given.value? "host" "SERVER_HOST" env⟩

/-- The settings with the address of the command line. -/
def override (c : Serve) (s : Settings) : Settings :=
  { s with port := c.port.getD s.port, host := c.host.getD s.host }

/-- Loads the settings and sets the service up, with the address that it listens on. -/
def start (c : Serve) (disk : Settings.Disk) (env : Settings.Environment) :
    Except Problem (Service × Network.SocketAddress) :=
  match Settings.load disk ⟨c.configPath, c.envFile⟩ env with
  | .error e => .error (.failed "failed to load configuration" e.message)
  | .ok loaded =>
    let settings := c.override loaded.settings
    match settings.address? with
    | none =>
      .error (.failed ("invalid listen address " ++ settings.addressText)
        Settings.addressErrorMessage)
    | some address =>
      match Service.ofSettings settings .synthetic with
      | .error e => .error (.failed "failed to seed the device registry" e.message)
      | .ok service =>
        match Service.build? service.settings with
        | none => .error .broken
        | some _ => .ok (service, address)

/-- Starts the service as arguments say. -/
def run (args : List String) (disk : Settings.Disk) (env : Settings.Environment) :
    Except Problem (Service × Network.SocketAddress) :=
  match ofArguments? args env with
  | none => .error .usage
  | some c => c.start disk env

/-- The problem that an address cannot be listened on. -/
def bindProblem (address : Network.SocketAddress) (reason : String) : Problem :=
  .failed ("failed to bind " ++ address.text) reason

end Serve

end CameraFleet.CommandLine
