import UrlPolicy.Keyword
import UrlPolicy.Rule.Match

set_option autoImplicit false

namespace UrlPolicy

inductive Source where
  | internalPage | temporaryAllow | allowKeyword | allowRule | denyRule | denyKeyword
  | notOnAllowList | noMatch
  deriving DecidableEq, Repr

inductive Verdict where
  | internalPage
  | temporaryAllow
  | allowKeyword (keyword : Keyword)
  | allowRule (winner : Rule) (loser : Option Rule)
  | denyRule (winner : Rule) (loser : Option Rule)
  | denyKeyword (keyword : Keyword)
  | notOnAllowList
  | noMatch
  deriving DecidableEq, Repr

def quoted (t : Text) : Text := '"' :: t ++ ['"']

def parenthesized (specificity : Nat) : Text :=
  " (specificity ".toList ++ Nat.toDigits 10 specificity ++ [')']

namespace Verdict

def blocked : Verdict → Bool
  | .denyRule _ _ | .denyKeyword _ | .notOnAllowList => true
  | _ => false

def source : Verdict → Source
  | .internalPage => .internalPage
  | .temporaryAllow => .temporaryAllow
  | .allowKeyword _ => .allowKeyword
  | .allowRule _ _ => .allowRule
  | .denyRule _ _ => .denyRule
  | .denyKeyword _ => .denyKeyword
  | .notOnAllowList => .notOnAllowList
  | .noMatch => .noMatch

def matchedRule : Verdict → Option Text
  | .allowRule winner _ | .denyRule winner _ => some winner.raw
  | .allowKeyword k | .denyKeyword k => some k.raw
  | _ => none

def specificity : Verdict → Nat
  | .allowRule winner _ | .denyRule winner _ => winner.specificity
  | _ => 0

/-- The entry of the other list that a more specific rule, or an equal one that allows, set
aside. -/
def overriddenRule : Verdict → Option Text
  | .allowRule _ loser | .denyRule _ loser => loser.map Rule.raw
  | _ => none

def ruleReason (verb other : String) (winner : Rule) : Option Rule → Text
  | none => verb.toList ++ " by rule ".toList ++ quoted winner.raw
  | some loser =>
    verb.toList ++ " by rule ".toList ++ quoted winner.raw ++ parenthesized winner.specificity ++
      " over ".toList ++ other.toList ++ " rule ".toList ++ quoted loser.raw ++
      parenthesized loser.specificity

def reason : Verdict → Text
  | .internalPage => "internal page".toList
  | .temporaryAllow => "temporarily allowed".toList
  | .allowKeyword k => "allow keyword ".toList ++ quoted k.raw
  | .allowRule winner loser => ruleReason "allowed" "deny" winner loser
  | .denyRule winner loser => ruleReason "blocked" "allow" winner loser
  | .denyKeyword k => "blocked by keyword ".toList ++ quoted k.raw
  | .notOnAllowList => "not on allow list".toList
  | .noMatch => "no match".toList

end Verdict

end UrlPolicy
