import CameraFleet.Main
import CameraFleet.Polling.Timeline
import CameraFleet.Proofs.Number.Decimal
import CameraFleet.Proofs.Service.Runs
import CameraFleet.Proofs.Json.Scan
import CameraFleet.Proofs.Json.RoundTrip
import CameraFleet.Proofs.Ident.Canonical
import CameraFleet.Proofs.Wire
import CameraFleet.Proofs.Client.Agreement
import CameraFleet.Proofs.Number.Rounding
import CameraFleet.Proofs.Number.Shortest
import CameraFleet.Proofs.Ident.ReadBack
import CameraFleet.Proofs.Registry.Quality
import CameraFleet.Proofs.Settings.Loading
import CameraFleet.Proofs.Service.Origins
import CameraFleet.Proofs.Json.Number
import CameraFleet.Proofs.Json.Places
import CameraFleet.Proofs.Camera.Document
import CameraFleet.Proofs.Listing
import CameraFleet.Proofs.Client.Listing
import CameraFleet.Proofs.Registry.Isolation
import CameraFleet.Proofs.Polling.Runs
import CameraFleet.Proofs.Polling.Mirror
import CameraFleet.Proofs.Polling.Schedule
import CameraFleet.Proofs.Polling.Timeline
import CameraFleet.Proofs.Capture
import CameraFleet.Proofs.Capture.Outcome
import CameraFleet.Proofs.Http.Form
import CameraFleet.Proofs.Preview
import CameraFleet.Proofs.Service.Answers
import CameraFleet.Proofs.Client.Refusals
import CameraFleet.Proofs.Service.Delivery
import CameraFleet.Proofs.Client.Captures
import CameraFleet.Proofs.Http.Cors
import CameraFleet.Proofs.Registry.Seeding
import CameraFleet.Proofs.Registry.Outcome
import CameraFleet.Proofs.Registry.FullPatches
import CameraFleet.Proofs.Service.Startup
import CameraFleet.Proofs.QualityRange.Nearest
import CameraFleet.Proofs.Resolution.LastSize
import CameraFleet.Proofs.Preview.Substitution
import CameraFleet.Proofs.Client.Downloads
import CameraFleet.Proofs.CommandLine.Saving
import CameraFleet.Proofs.Service.Spelling
import CameraFleet.Proofs.Ident.Keys
import CameraFleet.Proofs.Settings.Sources
import CameraFleet.Proofs.Settings.Layers
import CameraFleet.Proofs.Client.BaseUrl
