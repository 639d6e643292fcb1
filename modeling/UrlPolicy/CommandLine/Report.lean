import UrlPolicy.CommandLine.Load
import UrlPolicy.Decision.Json
import UrlPolicy.Json.Printer
import UrlPolicy.Pattern.Report

set_option autoImplicit false

namespace UrlPolicy.CommandLine

structure Report where
  lines : List Text
  error : Option Text
  deriving DecidableEq, Repr

namespace Report

def ofLines (lines : List Text) : Report := ⟨lines, none⟩

def failed (lines : List Text) (error : Text) : Report := ⟨lines, some error⟩

end Report

def padEnd (width : Nat) (t : Text) : Text := t ++ List.replicate (width - t.length) ' '

def padStart (width : Nat) (t : Text) : Text := List.replicate (width - t.length) ' ' ++ t

def number (n : Nat) : Text := Nat.toDigits 10 n

def verdictLine (url : Text) (v : Verdict) : Text :=
  (if v.blocked then "BLOCK  ".toList else "ALLOW  ".toList) ++ url ++ "  (".toList ++ v.reason ++
    [')']

/-- Whether a host is one of those allowed for a time, whatever the case of their letters. -/
def isListed (hosts : List Text) (host : Text) : Bool :=
  hosts.any fun h => Text.lowerAscii h == Text.lowerAscii host

def checkLine (p : Policy) (tempAllow : List Text) (json : Bool) (url : Text) : Text :=
  let d := p.decide url (isListed tempAllow) false
  if json then d.toJson.compact else verdictLine url d.verdict

def checkReport (files : Files) (source : PolicySource) (urls tempAllow : List Text) (json : Bool) :
    Report :=
  match (load files source).2 with
  | .error e => .failed [] e
  | .ok loaded => .ofLines (urls.map (checkLine loaded.compiled.policy tempAllow json))

def diagnosticLine (d : Diagnostic) : Text :=
  "  ".toList ++ d.side.name ++ " #".toList ++ number d.position ++ ": ".toList ++ quoted d.raw ++
    ": ".toList ++ d.error.message

def policyLines (loaded : Loaded) (time : Text) : List Text :=
  let p := loaded.compiled.policy
  let stats := loaded.compiled.stats
  [(if p.rules.diagnostics = [] then "Policy is valid"
      else "Policy is usable with rejected rules").toList,
    "  Mode:        ".toList ++ p.mode.name,
    "  Allow rules: ".toList ++ number loaded.allowRules ++ " -> ".toList ++
      number p.rules.allow.length,
    "  Deny rules:  ".toList ++ number loaded.denyRules ++ " -> ".toList ++
      number p.rules.deny.length,
    "  Deduped:     ".toList ++ number stats.deduped,
    "  Invalid:     ".toList ++ number stats.invalid,
    "  Keywords:    ".toList ++ number p.allowKeywords.length ++ " allow, ".toList ++
      number p.denyKeywords.length ++ " deny".toList,
    "  Time:        ".toList ++ time] ++
  p.rules.diagnostics.map diagnosticLine

def validateReport (result : List Text × Except Text Loaded) (strict : Bool) (time : Text) :
    Report :=
  match result with
  | (lines, .error e) => .failed lines e
  | (lines, .ok loaded) =>
    let rejected := loaded.compiled.policy.rules.diagnostics.length
    ⟨lines ++ policyLines loaded time,
      if strict ∧ rejected ≠ 0 then some (number rejected ++ " rule(s) rejected".toList) else none⟩

def outcomeLabel : Outcome → Text
  | .matched => "matched".toList
  | .protocolMismatch => "protocol mismatch".toList
  | .hostMismatch => "host mismatch".toList
  | .pathMismatch => "path mismatch".toList
  | .invalid => "invalid rule".toList
  | .noHost => "opaque url".toList

def stepLine : TraceStep → Text
  | .rule side position raw specificity outcome =>
    "  ".toList ++ side.name ++ " #".toList ++ padEnd 3 (number position) ++ ' ' ::
      padEnd 18 (outcomeLabel outcome) ++ ' ' :: padStart 3 (number specificity) ++
      "  ".toList ++ raw
  | .keyword side raw found =>
    "  ".toList ++ side.name ++ " keyword ".toList ++
      padEnd 14 (if found then "matched".toList else "no match".toList) ++ ' ' :: quoted raw

def explainLines (p : Policy) (url : Text) : List Text :=
  let d := p.decide url (fun _ => false) true
  verdictLine url d.verdict :: (d.trace.getD []).map stepLine

def explainReport (files : Files) (source : PolicySource) (urls : List Text) : Report :=
  match (load files source).2 with
  | .error e => .failed [] e
  | .ok loaded => .ofLines (urls.flatMap (explainLines loaded.compiled.policy))

def patternLines (raw : Text) : List Text :=
  match Pattern.parse raw with
  | .error e => [raw, "  invalid: ".toList ++ e.message]
  | .ok p => [raw, "  normalized:  ".toList ++ p.text, "  path:        ".toList ++ p.path.kind,
      "  specificity: ".toList ++ number p.specificity]

def patternsReport (patterns : List Text) : Report := .ofLines (patterns.flatMap patternLines)

end UrlPolicy.CommandLine
