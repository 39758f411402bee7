import CameraFleet.Network.Address

/-!
# URLs

A URL has a scheme, perhaps an authority, a path, and perhaps a query and a fragment. Its text
puts them together in this order.
-/

namespace CameraFleet

namespace Url

/-- Where a server is. -/
inductive Host where
  | domain (name : String)
  | ipv4 (address : Network.Ipv4)
  | ipv6 (address : Network.Ipv6)
  deriving DecidableEq

def Host.text : Host → String
  | .domain name => name
  | .ipv4 address => String.ofList address.text
  | .ipv6 address => "[" ++ String.ofList address.compressed ++ "]"

/-- A host, perhaps with a user and a port other than the scheme's own. -/
structure Authority where
  /-- The user, and the password behind a colon where there is one. -/
  user : Option String
  host : Host
  port : Option Nat
  deriving DecidableEq

def Authority.text (a : Authority) : String :=
  (a.user.map (· ++ "@")).getD "" ++ a.host.text ++
    (a.port.map fun port => ":" ++ Natural.toText port).getD ""

/-- Why a text is no URL. -/
inductive Problem where
  | relative
  | emptyHost
  | invalidPort
  | invalidIpv4
  | invalidIpv6
  | invalidDomain
  | invalidDomainCharacter
  deriving DecidableEq

def Problem.message : Problem → String
  | .relative => "relative URL without a base"
  | .emptyHost => "empty host"
  | .invalidPort => "invalid port number"
  | .invalidIpv4 => "invalid IPv4 address"
  | .invalidIpv6 => "invalid IPv6 address"
  | .invalidDomain => "invalid international domain name"
  | .invalidDomainCharacter => "invalid domain character"

end Url

/-- A URL by its parts. -/
structure Url where
  scheme : String
  authority : Option Url.Authority
  path : String
  query : Option String
  fragment : Option String
  deriving DecidableEq

namespace Url

/-- What stands between the scheme and the path. A path without an authority does not look like
one. -/
def authorityText (u : Url) : String :=
  match u.authority with
  | some a => "//" ++ a.text
  | none => if ['/', '/'].isPrefixOf u.path.toList then "/." else ""

/-- What stands behind the path. -/
def tailText (u : Url) : String :=
  (u.query.map ("?" ++ ·)).getD "" ++ (u.fragment.map ("#" ++ ·)).getD ""

/-- The text of a URL. -/
def text (u : Url) : String :=
  u.scheme ++ ":" ++ u.authorityText ++ u.path ++ u.tailText

end Url

end CameraFleet
