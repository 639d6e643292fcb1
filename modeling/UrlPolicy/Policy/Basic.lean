import UrlPolicy.Decision.Trace
import UrlPolicy.Decision.Verdict
import UrlPolicy.Policy.Mode

/-!
Policies, and deciding an address. Pages of the browser are allowed; then come hosts that the user
has allowed for a time, allow keywords, and what the mode says about the rules and the deny
keywords.
-/

set_option autoImplicit false

namespace UrlPolicy

structure Policy where
  rules : Ruleset
  allowKeywords : List Keyword
  denyKeywords : List Keyword
  mode : Mode
  deriving DecidableEq, Repr

structure Decision where
  verdict : Verdict
  trace : Option Trace
  deriving DecidableEq, Repr

namespace Policy

def empty : Policy := ⟨.empty, [], [], .blacklist⟩

def judgeDenyKeywords (p : Policy) (a : Address) : Recorded Verdict := fun trace =>
  let (found, trace) := recordKeywords .deny p.denyKeywords a trace
  match found with
  | some k => (.denyKeyword k, trace)
  | none => (.noMatch, trace)

def judgeWhitelist (p : Policy) (a : Address) : Recorded Verdict := fun trace =>
  let (found, trace) := recordRules p.rules .allow a trace
  match bestMatch found with
  | some best => (.allowRule best.rule none, trace)
  | none => (.notOnAllowList, trace)

def judgeBlacklist (p : Policy) (a : Address) : Recorded Verdict := fun trace =>
  let (found, trace) := recordRules p.rules .deny a trace
  match bestMatch found with
  | some best => (.denyRule best.rule none, trace)
  | none => p.judgeDenyKeywords a trace

/-- The more specific of two rules; of equals, the one that allows. -/
def settle (allow deny : Rule) : Verdict :=
  if deny.specificity ≤ allow.specificity then .allowRule allow (some deny)
  else .denyRule deny (some allow)

def judgeCombined (p : Policy) (a : Address) : Recorded Verdict := fun trace =>
  let (allowed, trace) := recordRules p.rules .allow a trace
  let (denied, trace) := recordRules p.rules .deny a trace
  match bestMatch allowed, bestMatch denied with
  | none, none => p.judgeDenyKeywords a trace
  | some allow, none => (.allowRule allow.rule none, trace)
  | none, some deny => (.denyRule deny.rule none, trace)
  | some allow, some deny => (settle allow.rule deny.rule, trace)

/-- The verdict on an address that is neither a page of the browser nor allowed for a time. -/
def judge (p : Policy) (a : Address) : Recorded Verdict := fun trace =>
  let (found, trace) := recordKeywords .allow p.allowKeywords a trace
  match found with
  | some k => (.allowKeyword k, trace)
  | none =>
    match p.mode with
    | .whitelist => p.judgeWhitelist a trace
    | .blacklist => p.judgeBlacklist a trace
    | .combined => p.judgeCombined a trace

/-- Decides an address, with a trace on request. Whether a host is allowed for a time is asked in
some monad. -/
def decideM {m : Type → Type} [Monad m] (p : Policy) (url : Text) (isExempt : Text → m Bool)
    (traced : Bool) : m Decision := do
  let a := Address.read url
  let start : Option Trace := if traced then some [] else none
  if a.isInternal then return ⟨.internalPage, start⟩
  if ← isExempt a.host then return ⟨.temporaryAllow, start⟩
  let (verdict, trace) := p.judge a start
  return ⟨verdict, trace⟩

def decide (p : Policy) (url : Text) (isExempt : Text → Bool) (traced : Bool) : Decision :=
  Id.run (p.decideM url (fun host => pure (isExempt host)) traced)

end Policy

end UrlPolicy
