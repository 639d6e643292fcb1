import UrlPolicy.Pattern.Basic
import UrlPolicy.Pattern.Error
import UrlPolicy.Host
import UrlPolicy.Text.LowerCase

set_option autoImplicit false

namespace UrlPolicy.Pattern

def forbiddenMarks : List Char :=
  ['[', ']', '(', ')', '{', '}', '\\', '<', '>', '"', '|', '^', '\x60', '@']

def isForbidden (c : Char) : Bool :=
  Text.isBlank c || Text.isControl c || forbiddenMarks.contains c

def parsePath? (remainder : Text) : Option (PathPattern × Bool) :=
  if remainder = [] then some (.anywhere, false)
  else (PathPattern.parse? (rooted remainder)).map fun path =>
    (path, remainder.any startsQuery)

def parseHierarchy (text : Text) (protocol : Option Text) (rest : Text) :
    Except PatternError Pattern :=
  let (authority, remainder) := splitAuthority rest
  match hostOf? authority with
  | none => .error (.invalidHost text)
  | some host =>
    let base := Text.dropStart? ['*', '.'] host
    let domain := Text.chop '.' (base.getD host)
    if domain.contains '*' || host == ['*'] then .error (.misplacedWildcard text)
    else if domain = [] then .error (.emptyHost text)
    else if (Text.split '.' domain).contains [] then .error (.emptyLabel text)
    else if !isHost domain then .error (.invalidHost text)
    else match parsePath? remainder with
      | none => .error (.emptySegment text)
      | some (path, matchesQuery) => .ok ⟨protocol, base.isSome, domain, path, matchesQuery⟩

def parse (raw : Text) : Except PatternError Pattern :=
  let text := Text.lower (Text.trim raw)
  if text = [] then .error .empty
  else match text.find? isForbidden with
    | some c => .error (.invalidCharacter text c)
    | none =>
      match SchemeSplit.of text with
      | .hierarchical scheme rest => parseHierarchy text (some scheme) rest
      | .absent rest => parseHierarchy text none rest
      | .bare _ _ | .malformed => .error (.invalidProtocol text)

end UrlPolicy.Pattern
