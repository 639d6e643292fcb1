import UrlPolicy.Rule.Basic

set_option autoImplicit false

namespace UrlPolicy

structure RuleMatch where
  position : Nat
  rule : Rule
  deriving DecidableEq, Repr

def matchingRules (rules : List Rule) (a : Address) : List RuleMatch :=
  (rules.zipIdx.filter fun r => r.1.accepts a).map fun r => ⟨r.2, r.1⟩

/-- The first of two unless the second is more specific. -/
def RuleMatch.better (best : Option RuleMatch) (m : RuleMatch) : Option RuleMatch :=
  match best with
  | none => some m
  | some b => if m.rule.specificity ≤ b.rule.specificity then some b else some m

/-- The most specific match, and the first of several. -/
def bestMatch (found : List RuleMatch) : Option RuleMatch := found.foldl RuleMatch.better none

end UrlPolicy
