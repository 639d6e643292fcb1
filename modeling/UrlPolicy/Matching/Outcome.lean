import UrlPolicy.Address
import UrlPolicy.Matching.Path
import UrlPolicy.Pattern.Basic

set_option autoImplicit false

namespace UrlPolicy

inductive Outcome where
  | matched
  | protocolMismatch
  | hostMismatch
  | pathMismatch
  /-- The rule is no pattern. -/
  | invalid
  /-- The address does not name a host. -/
  | noHost
  deriving DecidableEq, Repr

/-- Whether a host is `base` with labels in front of it. -/
def isSubdomain (host base : Text) : Bool :=
  match Text.dropEnd? ('.' :: base) host with
  | none => false
  | some labels => labels != []

namespace Pattern

def acceptsProtocol (p : Pattern) (a : Address) : Bool :=
  match p.protocol with
  | none => a.kind == none || a.kind == some .http || a.kind == some .https
  | some protocol => a.scheme == some protocol

def acceptsHost (p : Pattern) (host : Text) : Bool :=
  if host = p.domain then !p.subdomainsOnly else isSubdomain host p.domain

def acceptsPath (p : Pattern) (a : Address) : Bool :=
  p.path.accepts (if p.matchesQuery then a.target else a.path)

def outcome (p : Pattern) (a : Address) : Outcome :=
  if a.location.isNone then .noHost
  else if !p.acceptsProtocol a then .protocolMismatch
  else if !p.acceptsHost a.host then .hostMismatch
  else if !p.acceptsPath a then .pathMismatch
  else .matched

end Pattern

end UrlPolicy
