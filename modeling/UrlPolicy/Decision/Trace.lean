import UrlPolicy.Keyword
import UrlPolicy.Rule.Ruleset

set_option autoImplicit false

namespace UrlPolicy

inductive TraceStep where
  | rule (side : Side) (position : Nat) (raw : Text) (specificity : Nat) (outcome : Outcome)
  | keyword (side : Side) (raw : Text) (found : Bool)
  deriving DecidableEq, Repr

abbrev Trace := List TraceStep

def Trace.matchedRules (t : Trace) (side : Side) : List Text :=
  t.filterMap fun
    | .rule s _ raw _ .matched => if s = side then some raw else none
    | _ => none

def inspectRules (side : Side) (a : Address) : List (Rule × Nat) → List RuleMatch × Trace
  | [] => ([], [])
  | (r, position) :: rs =>
    let outcome := r.outcome a
    let (found, steps) := inspectRules side a rs
    (if outcome = .matched then ⟨position, r⟩ :: found else found,
      .rule side position r.raw r.specificity outcome :: steps)

/-- Looks at every keyword of a list, also behind the first that occurs. -/
def inspectKeywords (side : Side) (a : Address) : List Keyword → Option Keyword × Trace
  | [] => (none, [])
  | k :: ks =>
    let occurs := k.occursIn a
    let (found, steps) := inspectKeywords side a ks
    (if occurs then some k else found, .keyword side k.raw occurs :: steps)

/-- A computation that adds to a trace if there is one. -/
abbrev Recorded (α : Type) := Option Trace → α × Option Trace

def recordRules (rules : Ruleset) (side : Side) (a : Address) : Recorded (List RuleMatch)
  | none => (rules.matching side a, none)
  | some trace =>
    let (found, steps) := inspectRules side a (rules.list side).zipIdx
    (found, some (trace ++ steps))

def recordKeywords (side : Side) (keywords : List Keyword) (a : Address) :
    Recorded (Option Keyword)
  | none => (Keyword.first? keywords a, none)
  | some trace =>
    let (found, steps) := inspectKeywords side a keywords
    (found, some (trace ++ steps))

end UrlPolicy
