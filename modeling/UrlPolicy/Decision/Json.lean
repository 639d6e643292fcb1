import UrlPolicy.Json.Basic
import UrlPolicy.Policy.Basic

set_option autoImplicit false

namespace UrlPolicy

def Source.name : Source → Text
  | .internalPage => "internalPage".toList
  | .temporaryAllow => "temporaryAllow".toList
  | .allowKeyword => "allowKeyword".toList
  | .allowRule => "allowRule".toList
  | .denyRule => "denyRule".toList
  | .denyKeyword => "denyKeyword".toList
  | .notOnAllowList => "notOnAllowList".toList
  | .noMatch => "noMatch".toList

def Outcome.name : Outcome → Text
  | .matched => "matched".toList
  | .protocolMismatch => "protocolMismatch".toList
  | .hostMismatch => "hostMismatch".toList
  | .pathMismatch => "pathMismatch".toList
  | .invalid => "invalid".toList
  | .noHost => "opaqueUrl".toList

def TraceStep.toJson : TraceStep → Json
  | .rule side position raw specificity outcome => .object [
      ("kind".toList, .string "rule".toList),
      ("list".toList, .string side.name),
      ("position".toList, .number (.natural position)),
      ("raw".toList, .string raw),
      ("specificity".toList, .number (.natural specificity)),
      ("outcome".toList, .string outcome.name)]
  | .keyword side raw found => .object [
      ("kind".toList, .string "keyword".toList),
      ("list".toList, .string side.name),
      ("raw".toList, .string raw),
      ("matched".toList, .bool found)]

def Decision.toJson (d : Decision) : Json :=
  .object <| [
    ("blocked".toList, Json.bool d.verdict.blocked),
    ("reason".toList, .string d.verdict.reason),
    ("matchedRule".toList, (d.verdict.matchedRule.map Json.string).getD .null),
    ("specificity".toList, .number (.natural d.verdict.specificity)),
    ("source".toList, .string d.verdict.source.name)] ++
  (d.verdict.overriddenRule.map fun raw => ("overriddenRule".toList, Json.string raw)).toList ++
  (d.trace.map fun steps => ("trace".toList,
    Json.object [("steps".toList, .array (steps.map TraceStep.toJson))])).toList

end UrlPolicy
