import UrlPolicy.Json.Basic
import UrlPolicy.Pattern.Parser
import UrlPolicy.Specificity

set_option autoImplicit false

namespace UrlPolicy

structure PatternReport where
  raw : Text
  result : Except PatternError Pattern

namespace PatternReport

def of (raw : Text) : PatternReport := ⟨Text.trim raw, Pattern.parse raw⟩

def toJson (r : PatternReport) : Json :=
  match r.result with
  | .ok p => .object [
      ("raw".toList, .string r.raw),
      ("valid".toList, .bool true),
      ("normalized".toList, .string p.text),
      ("pathKind".toList, .string p.path.kind),
      ("subdomainsOnly".toList, .bool p.subdomainsOnly),
      ("specificity".toList, .number (.natural p.specificity))]
  | .error e => .object [
      ("raw".toList, .string r.raw),
      ("valid".toList, .bool false),
      ("subdomainsOnly".toList, .bool false),
      ("specificity".toList, .number (.natural 0)),
      ("error".toList, .string e.message)]

end PatternReport

end UrlPolicy
