import UrlPolicy.Matching.Search
import UrlPolicy.Path.Cursor
import UrlPolicy.Pattern.Path

set_option autoImplicit false

namespace UrlPolicy

def isRoot (path : Text) : Bool := path == [] || path == ['/']

def PathPattern.accepts : PathPattern → Text → Bool
  | .anywhere, _ => true
  | .root, path => isRoot path
  | .belowRoot, path => !isRoot path
  | .under base, path =>
    match Text.dropStart? base path with
    | none => false
    | some rest => rest == [] || rest.head? == some '/'
  | .segmented segments, path => segmentsMatch segments (pathSegments path)
  | .literal expected, path => withoutFinalSlash path == withoutFinalSlash expected

end UrlPolicy
