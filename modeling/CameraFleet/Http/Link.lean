import CameraFleet.Http.Message

/-!
# Links

A way to a server in some state. It may lead to a service in this process or to another machine;
one that is down answers nothing. One request gets one answer, which may be a redirection: a link
does not follow it.
-/

namespace CameraFleet

/-- The answer to a request, if one comes back, and the state of the server then. -/
abbrev Link (σ : Type) := σ → Http.Request → Option Http.Response × σ

namespace Link

/-- The link that never answers. -/
def down {σ : Type} : Link σ := fun s _ => (none, s)

end Link

end CameraFleet
