import CameraFleet.Camera
import CameraFleet.Policy
import CameraFleet.Toml.Reader

/-!
# Settings in a file

What a settings file may give, section by section. A file gives each of its settings or leaves it
out; what a section does not know is passed over.
-/

namespace CameraFleet.Settings

/-- The settings that a file gives. -/
structure FileSettings where
  host : Option String
  port : Option UInt16
  origins : Option (List String)
  methods : Option (List String)
  headers : Option (List String)
  template : Option String
  policy : Option Policy
  camerasPath : Option String
  cameras : List Camera
  devMode : Option Bool
  deriving DecidableEq, Inhabited

namespace FileSettings

/-- The settings of an empty file. -/
def none : FileSettings :=
  ⟨.none, .none, .none, .none, .none, .none, .none, .none, [], .none⟩

/-- The fields of a section, which may be missing. -/
def section? (fields : Datum.Record) (name : String) (names : List String) :
    Option Datum.Record :=
  fields.withDefault? name [] (Datum.fullRecord? names)

def texts? : Datum → Option (List String) :=
  Datum.listOf? Datum.text?

/-- A policy by its name, or a table with nothing under the name. -/
def policy? : Datum → Option Policy
  | .text s => Policy.named? s
  | .table [(some name, .table [])] | .table [(some name, .list [])] => Policy.named? name
  | _ => .none

def ofDatum? (d : Datum) : Option FileSettings := do
  let fields ← d.record?
    ["server", "cors", "preview", "registry", "cameras_path", "cameras", "dev_mode"]
  let server ← section? fields "server" ["host", "port"]
  let host ← server.optional? "host" Datum.text?
  let port ← server.optional? "port" Datum.uint16?
  let cors ← section? fields "cors" ["allowed_origins", "allowed_methods", "allowed_headers"]
  let origins ← cors.optional? "allowed_origins" texts?
  let methods ← cors.optional? "allowed_methods" texts?
  let headers ← cors.optional? "allowed_headers" texts?
  let preview ← section? fields "preview" ["url_template"]
  let template ← preview.optional? "url_template" Datum.text?
  let registry ← section? fields "registry" ["quality_policy"]
  let policy ← registry.optional? "quality_policy" policy?
  let camerasPath ← fields.optional? "cameras_path" Datum.text?
  let cameras ← fields.withDefault? "cameras" [] (Datum.listOf? Camera.ofDatum?)
  let devMode ← fields.optional? "dev_mode" Datum.bool?
  return ⟨host, port, origins, methods, headers, template, policy, camerasPath, cameras, devMode⟩

/-- The settings that the text of a file gives. -/
def parse? (s : String) : Option FileSettings :=
  (Toml.parse? s).bind ofDatum?

end FileSettings

end CameraFleet.Settings
