import UrlPolicy.Pattern.Path

set_option autoImplicit false

namespace UrlPolicy

structure Pattern where
  /-- The scheme that an address must have. Without one, `http`, `https` and none will do. -/
  protocol : Option Text
  /-- Written `*.`: the subdomains of the domain without the domain itself. -/
  subdomainsOnly : Bool
  domain : Text
  path : PathPattern
  /-- The path names a query or a fragment, so addresses keep theirs. -/
  matchesQuery : Bool
  deriving DecidableEq, Repr

namespace Pattern

def labelCount (p : Pattern) : Nat := (Text.split '.' p.domain).length

def text (p : Pattern) : Text :=
  (match p.protocol with
    | none => []
    | some protocol => protocol ++ "://".toList) ++
  (if p.subdomainsOnly then ['*', '.'] else []) ++ p.domain ++ p.path.text

end Pattern

end UrlPolicy
