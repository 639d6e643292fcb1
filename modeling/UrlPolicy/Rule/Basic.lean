import UrlPolicy.Matching.Outcome
import UrlPolicy.Pattern.Parser
import UrlPolicy.Specificity

set_option autoImplicit false

namespace UrlPolicy

inductive Side where
  | allow | deny
  deriving DecidableEq, Repr

def Side.name : Side → Text
  | .allow => "allow".toList
  | .deny => "deny".toList

structure Rule where
  /-- The entry without white space around it. -/
  raw : Text
  pattern : Option Pattern
  deriving DecidableEq, Repr

namespace Rule

def ofPattern (raw : Text) (p : Pattern) : Rule := ⟨Text.trim raw, some p⟩

def read (raw : Text) : Rule × Option PatternError :=
  match Pattern.parse raw with
  | .ok p => (ofPattern raw p, none)
  | .error e => (⟨Text.trim raw, none⟩, some e)

def isValid (r : Rule) : Bool := r.pattern.isSome

def specificity (r : Rule) : Nat := (r.pattern.map Pattern.specificity).getD 0

def outcome (r : Rule) (a : Address) : Outcome :=
  match r.pattern with
  | none => .invalid
  | some p => p.outcome a

def accepts (r : Rule) (a : Address) : Bool := r.outcome a == .matched

end Rule

end UrlPolicy
