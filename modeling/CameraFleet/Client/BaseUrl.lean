import CameraFleet.Url.Reader

/-!
# Base URLs

The URL that the routes of a service are appended to, without slashes at its end.
-/

namespace CameraFleet.Client

/-- The text of a base URL. -/
structure BaseUrl where
  text : String
  deriving DecidableEq

namespace BaseUrl

/-- The text without slashes at its end. -/
def dropSlashes (s : String) : String :=
  String.ofList (s.toList.reverse.dropWhile (· = '/')).reverse

/-- The base URL that a text is, without regard to blanks around it. -/
def ofText (s : String) : Except Url.Problem BaseUrl :=
  match Url.ofText (Text.trim s) with
  | .ok url => .ok ⟨dropSlashes url.text⟩
  | .error e => .error e

/-- The URL of a route. -/
def join (base : BaseUrl) (route : String) : String :=
  base.text ++ route

end BaseUrl

end CameraFleet.Client
