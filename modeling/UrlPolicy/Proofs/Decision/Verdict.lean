import UrlPolicy.Policy.Basic
import UrlPolicy.Proofs.Rule.Best

/-!
The verdict as a function of the rules that win in each list and of the keywords that occur, and
the steps that a trace records on the way to it. Recording a trace changes nothing about the
verdict, and the one question that deciding asks is whether the host is allowed for a time.
-/

set_option autoImplicit false

namespace UrlPolicy

def ruleStep (side : Side) (a : Address) (r : Rule × Nat) : TraceStep :=
  .rule side r.2 r.1.raw r.1.specificity (r.1.outcome a)

def ruleSteps (rules : Ruleset) (side : Side) (a : Address) : Trace :=
  (rules.list side).zipIdx.map (ruleStep side a)

def keywordSteps (side : Side) (keywords : List Keyword) (a : Address) : Trace :=
  keywords.map fun k => .keyword side k.raw (k.occursIn a)

theorem inspectRules_eq (side : Side) (a : Address) (rules : List (Rule × Nat)) :
    inspectRules side a rules =
      ((rules.filter fun r => r.1.accepts a).map fun r => ⟨r.2, r.1⟩,
        rules.map (ruleStep side a)) := by
  induction rules with
  | nil => rfl
  | cons r rules ih =>
    obtain ⟨r, position⟩ := r
    by_cases hr : r.outcome a = .matched
    · simp [inspectRules, ruleStep, Rule.accepts, hr, ih]
    · simp [inspectRules, ruleStep, Rule.accepts, hr, ih]

theorem inspectKeywords_eq (side : Side) (a : Address) (keywords : List Keyword) :
    inspectKeywords side a keywords =
      (Keyword.first? keywords a, keywordSteps side keywords a) := by
  induction keywords with
  | nil => rfl
  | cons k keywords ih =>
    cases hk : k.occursIn a with
    | false => simp [inspectKeywords, Keyword.first?, keywordSteps, hk, ih]
    | true => simp [inspectKeywords, Keyword.first?, keywordSteps, hk, ih]

theorem recordRules_eq (rules : Ruleset) (side : Side) (a : Address) (trace : Option Trace) :
    recordRules rules side a trace =
      (rules.matching side a, trace.map (· ++ ruleSteps rules side a)) := by
  cases trace with
  | none => rfl
  | some trace =>
    rw [recordRules, inspectRules_eq]
    rfl

theorem recordKeywords_eq (side : Side) (keywords : List Keyword) (a : Address)
    (trace : Option Trace) :
    recordKeywords side keywords a trace =
      (Keyword.first? keywords a, trace.map (· ++ keywordSteps side keywords a)) := by
  cases trace with
  | none => rfl
  | some trace =>
    rw [recordKeywords, inspectKeywords_eq]
    rfl

theorem Keyword.first?_eq_none_iff {keywords : List Keyword} {a : Address} :
    Keyword.first? keywords a = none ↔ ∀ k ∈ keywords, k.occursIn a = false := by
  simp [Keyword.first?]

theorem Keyword.occursIn_of_first? {keywords : List Keyword} {a : Address} {k : Keyword}
    (h : Keyword.first? keywords a = some k) : k ∈ keywords ∧ k.occursIn a = true := by
  have hk := List.find?_some h
  exact ⟨List.mem_of_find?_eq_some h, hk⟩

theorem Keyword.any_occursIn (keywords : List Keyword) (a : Address) :
    keywords.any (·.occursIn a) = (first? keywords a).isSome :=
  List.isSome_find?.symm

namespace Policy

def keywordVerdict (p : Policy) (a : Address) : Verdict :=
  match Keyword.first? p.denyKeywords a with
  | some k => .denyKeyword k
  | none => .noMatch

def ruleVerdict (p : Policy) (a : Address) : Verdict :=
  match p.mode, p.rules.winner .allow a, p.rules.winner .deny a with
  | .whitelist, some allow, _ => .allowRule allow none
  | .whitelist, none, _ => .notOnAllowList
  | .blacklist, _, some deny => .denyRule deny none
  | .blacklist, _, none => p.keywordVerdict a
  | .combined, some allow, some deny => settle allow deny
  | .combined, some allow, none => .allowRule allow none
  | .combined, none, some deny => .denyRule deny none
  | .combined, none, none => p.keywordVerdict a

def verdict (p : Policy) (a : Address) : Verdict :=
  match Keyword.first? p.allowKeywords a with
  | some k => .allowKeyword k
  | none => p.ruleVerdict a

/-- What is recorded once no allow keyword has occurred. The deny keywords are looked at only where
they can still decide. -/
def modeSteps (p : Policy) (a : Address) : Trace :=
  match p.mode with
  | .whitelist => ruleSteps p.rules .allow a
  | .blacklist =>
    ruleSteps p.rules .deny a ++
      if p.rules.accepting .deny a = [] then keywordSteps .deny p.denyKeywords a else []
  | .combined =>
    ruleSteps p.rules .allow a ++ ruleSteps p.rules .deny a ++
      if p.rules.accepting .allow a = [] ∧ p.rules.accepting .deny a = [] then
        keywordSteps .deny p.denyKeywords a
      else []

def steps (p : Policy) (a : Address) : Trace :=
  keywordSteps .allow p.allowKeywords a ++
    if p.allowKeywords.any (·.occursIn a) then [] else p.modeSteps a

theorem judgeDenyKeywords_eq (p : Policy) (a : Address) (trace : Option Trace) :
    p.judgeDenyKeywords a trace =
      (p.keywordVerdict a, trace.map (· ++ keywordSteps .deny p.denyKeywords a)) := by
  rw [judgeDenyKeywords, recordKeywords_eq, keywordVerdict]
  cases Keyword.first? p.denyKeywords a <;> rfl

theorem judgeWhitelist_eq (p : Policy) (a : Address) (trace : Option Trace)
    (hm : p.mode = .whitelist) :
    p.judgeWhitelist a trace = (p.ruleVerdict a, trace.map (· ++ p.modeSteps a)) := by
  rw [judgeWhitelist, recordRules_eq, ruleVerdict, modeSteps, hm, Ruleset.winner, Ruleset.best]
  dsimp only
  cases bestMatch (p.rules.matching .allow a) <;> rfl

theorem judgeBlacklist_eq (p : Policy) (a : Address) (trace : Option Trace)
    (hm : p.mode = .blacklist) :
    p.judgeBlacklist a trace = (p.ruleVerdict a, trace.map (· ++ p.modeSteps a)) := by
  simp only [judgeBlacklist, recordRules_eq, ruleVerdict, modeSteps, hm,
    ← Ruleset.winner_eq_none_iff, Ruleset.winner, Ruleset.best]
  cases bestMatch (p.rules.matching .deny a) with
  | none => simp [judgeDenyKeywords_eq, Function.comp_def]
  | some best => simp

theorem judgeCombined_eq (p : Policy) (a : Address) (trace : Option Trace)
    (hm : p.mode = .combined) :
    p.judgeCombined a trace = (p.ruleVerdict a, trace.map (· ++ p.modeSteps a)) := by
  simp only [judgeCombined, recordRules_eq, ruleVerdict, modeSteps, hm,
    ← Ruleset.winner_eq_none_iff, Ruleset.winner, Ruleset.best]
  cases bestMatch (p.rules.matching .allow a) with
  | none =>
    cases bestMatch (p.rules.matching .deny a) with
    | none => simp [judgeDenyKeywords_eq, Function.comp_def]
    | some deny => simp [Function.comp_def]
  | some allow => cases bestMatch (p.rules.matching .deny a) <;> simp [Function.comp_def]

theorem judge_eq (p : Policy) (a : Address) (trace : Option Trace) :
    p.judge a trace = (p.verdict a, trace.map (· ++ p.steps a)) := by
  rw [judge, recordKeywords_eq, verdict, steps, Keyword.any_occursIn]
  dsimp only
  cases Keyword.first? p.allowKeywords a with
  | some k => simp
  | none =>
    simp only [Option.isSome_none, Bool.false_eq_true, if_false]
    cases hm : p.mode with
    | whitelist => simp [judgeWhitelist_eq p a _ hm, Function.comp_def]
    | blacklist => simp [judgeBlacklist_eq p a _ hm, Function.comp_def]
    | combined => simp [judgeCombined_eq p a _ hm, Function.comp_def]

theorem decide_eq (p : Policy) (url : Text) (isExempt : Text → Bool) (traced : Bool) :
    p.decide url isExempt traced =
      if (Address.read url).isInternal then ⟨.internalPage, if traced then some [] else none⟩
      else if isExempt (Address.read url).host then
        ⟨.temporaryAllow, if traced then some [] else none⟩
      else ⟨p.verdict (Address.read url),
        if traced then some (p.steps (Address.read url)) else none⟩ := by
  by_cases hi : (Address.read url).isInternal
  · simp [decide, decideM, hi]
  · by_cases he : isExempt (Address.read url).host
    · simp [decide, decideM, hi, he]
    · cases traced <;> simp [decide, decideM, hi, he, judge_eq]

theorem decide_verdict (p : Policy) (url : Text) (isExempt : Text → Bool) (traced : Bool) :
    (p.decide url isExempt traced).verdict =
      if (Address.read url).isInternal then .internalPage
      else if isExempt (Address.read url).host then .temporaryAllow
      else p.verdict (Address.read url) := by
  rw [decide_eq]
  split
  · rfl
  · split <;> rfl

/-- Deciding asks once about the host of an address that is no page of the browser, and of no
other host. -/
theorem decideM_eq {m : Type → Type} [Monad m] (p : Policy) (url : Text)
    (ask : Text → m Bool) (traced : Bool) :
    p.decideM url ask traced =
      if (Address.read url).isInternal then pure (p.decide url (fun _ => false) traced)
      else ask (Address.read url).host >>= fun exempt =>
        pure (p.decide url (fun _ => exempt) traced) := by
  by_cases hi : (Address.read url).isInternal
  · simp [decide, decideM, hi]
  · rw [decideM, if_neg hi, if_neg hi]
    refine congrArg (ask (Address.read url).host >>= ·) ?_
    funext exempt
    cases exempt <;> simp [decide, decideM, hi]

end Policy

end UrlPolicy
