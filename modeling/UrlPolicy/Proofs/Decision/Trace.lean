import UrlPolicy.Proofs.Decision.Verdict

/-!
What a trace tells. Main statements: a decision with a trace is the decision without one but for
the trace; the trace has one step for each keyword and each rule that can still decide, in order;
and from the mode and these steps alone the verdict is found again.
-/

set_option autoImplicit false

namespace UrlPolicy

def Decision.withoutTrace (d : Decision) : Decision := { d with trace := none }

/-- The part of a verdict that a trace tells. -/
structure Summary where
  blocked : Bool
  source : Source
  matchedRule : Option Text
  specificity : Nat
  deriving DecidableEq, Repr

def Verdict.summary (v : Verdict) : Summary :=
  ⟨v.blocked, v.source, v.matchedRule, v.specificity⟩

@[simp] theorem summary_allowKeyword (k : Keyword) :
    (Verdict.allowKeyword k).summary = ⟨false, .allowKeyword, some k.raw, 0⟩ := rfl

@[simp] theorem summary_allowRule (r : Rule) (loser : Option Rule) :
    (Verdict.allowRule r loser).summary = ⟨false, .allowRule, some r.raw, r.specificity⟩ := rfl

@[simp] theorem summary_denyRule (r : Rule) (loser : Option Rule) :
    (Verdict.denyRule r loser).summary = ⟨true, .denyRule, some r.raw, r.specificity⟩ := rfl

@[simp] theorem summary_notOnAllowList :
    Verdict.notOnAllowList.summary = ⟨true, .notOnAllowList, none, 0⟩ := rfl

def TraceStep.keyword? (side : Side) : TraceStep → Option Text
  | .keyword s raw true => if s = side then some raw else none
  | _ => none

def TraceStep.candidate? (side : Side) : TraceStep → Option (Text × Nat)
  | .rule s _ raw specificity .matched => if s = side then some (raw, specificity) else none
  | _ => none

namespace Trace

def firstKeyword? (t : Trace) (side : Side) : Option Text := t.findSome? (·.keyword? side)

def candidates (t : Trace) (side : Side) : List (Text × Nat) := t.filterMap (·.candidate? side)

/-- The first of the candidates that no other exceeds. -/
def best? (found : List (Text × Nat)) : Option (Text × Nat) :=
  found.find? fun c => found.all fun d => d.2 ≤ c.2

/-- Reads off a trace what the rules and the deny keywords say. -/
def replayRules (mode : Mode) (t : Trace) : Summary :=
  match best? (t.candidates .allow), best? (t.candidates .deny) with
  | some allow, some deny =>
    if deny.2 ≤ allow.2 then ⟨false, .allowRule, some allow.1, allow.2⟩
    else ⟨true, .denyRule, some deny.1, deny.2⟩
  | some allow, none => ⟨false, .allowRule, some allow.1, allow.2⟩
  | none, some deny => ⟨true, .denyRule, some deny.1, deny.2⟩
  | none, none =>
    match t.firstKeyword? .deny with
    | some raw => ⟨true, .denyKeyword, some raw, 0⟩
    | none =>
      if mode = .whitelist then ⟨true, .notOnAllowList, none, 0⟩ else ⟨false, .noMatch, none, 0⟩

def replay (mode : Mode) (t : Trace) : Summary :=
  match t.firstKeyword? .allow with
  | some raw => ⟨false, .allowKeyword, some raw, 0⟩
  | none => t.replayRules mode

@[simp] theorem best?_nil : best? [] = none := rfl

@[simp] theorem firstKeyword?_append (s t : Trace) (side : Side) :
    firstKeyword? (s ++ t) side = (s.firstKeyword? side).or (t.firstKeyword? side) :=
  List.findSome?_append

@[simp] theorem candidates_append (s t : Trace) (side : Side) :
    candidates (s ++ t) side = s.candidates side ++ t.candidates side :=
  List.filterMap_append

@[simp] theorem firstKeyword?_keywordSteps (side side' : Side) (keywords : List Keyword)
    (a : Address) : firstKeyword? (keywordSteps side keywords a) side' =
      if side = side' then (Keyword.first? keywords a).map Keyword.raw else none := by
  induction keywords with
  | nil => simp [firstKeyword?, keywordSteps, Keyword.first?]
  | cons k keywords ih =>
    simp only [firstKeyword?, keywordSteps, Keyword.first?, List.map_cons, List.findSome?_cons,
      List.find?_cons] at ih ⊢
    cases hk : k.occursIn a with
    | false => exact ih
    | true =>
      by_cases hside : side = side'
      · simp [TraceStep.keyword?, hside]
      · simpa [TraceStep.keyword?, hside] using ih

@[simp] theorem candidates_keywordSteps (side side' : Side) (keywords : List Keyword)
    (a : Address) : candidates (keywordSteps side keywords a) side' = [] := by
  simp [candidates, keywordSteps, TraceStep.candidate?]

@[simp] theorem firstKeyword?_ruleSteps (rules : Ruleset) (side side' : Side) (a : Address) :
    firstKeyword? (ruleSteps rules side a) side' = none := by
  rw [firstKeyword?, List.findSome?_eq_none_iff]
  intro step hstep
  obtain ⟨r, _, rfl⟩ := List.mem_map.1 hstep
  rfl

end Trace

abbrev Rule.candidate (r : Rule) : Text × Nat := (r.raw, r.specificity)

theorem candidate?_ruleStep (side side' : Side) (a : Address) (r : Rule) (n : Nat) :
    (ruleStep side a (r, n)).candidate? side' =
      if r.accepts a ∧ side = side' then some r.candidate else none := by
  cases h : r.outcome a <;> simp [ruleStep, TraceStep.candidate?, Rule.accepts, Rule.candidate, h]

namespace Trace

theorem candidates_zipIdx (list : List Rule) (n : Nat) (side side' : Side) (a : Address) :
    candidates ((list.zipIdx n).map (ruleStep side a)) side' =
      if side = side' then (list.filter (·.accepts a)).map Rule.candidate else [] := by
  induction list generalizing n with
  | nil => simp [candidates]
  | cons r list ih =>
    have ih := ih (n + 1)
    simp only [candidates, List.zipIdx_cons, List.map_cons, List.filterMap_cons,
      candidate?_ruleStep, List.filter_cons] at ih ⊢
    rw [ih]
    by_cases hr : r.accepts a = true
    · by_cases hside : side = side' <;> simp [hr, hside]
    · simp [hr]

@[simp] theorem candidates_ruleSteps (rules : Ruleset) (side side' : Side) (a : Address) :
    candidates (ruleSteps rules side a) side' =
      if side = side' then (rules.accepting side a).map Rule.candidate else [] :=
  candidates_zipIdx (rules.list side) 0 side side' a

theorem best?_of_isBest {rules : List Rule} {r : Rule} (h : IsBest rules r) :
    best? (rules.map Rule.candidate) = some r.candidate := by
  have hmax : (rules.map Rule.candidate).all (fun d => d.2 ≤ r.candidate.2) = true := by
    rw [List.all_map, List.all_eq_true]
    exact fun s hs => decide_eq_true (h.specificity_le hs)
  obtain ⟨before, after, rfl, hbefore, _⟩ := h
  rw [best?, List.find?_eq_some_iff_append]
  refine ⟨hmax, before.map Rule.candidate, after.map Rule.candidate, by simp, ?_⟩
  intro c hc
  obtain ⟨s, hs, rfl⟩ := List.mem_map.1 hc
  -- the best rule itself exceeds every earlier one
  have hexceeded : r.candidate.2 > s.candidate.2 := hbefore s hs
  simp only [Bool.not_eq_true', List.all_eq_false]
  exact ⟨r.candidate, by simp, by simpa using hexceeded⟩

@[simp] theorem best?_accepting (rules : Ruleset) (side : Side) (a : Address) :
    best? ((rules.accepting side a).map Rule.candidate) =
      (rules.winner side a).map Rule.candidate := by
  rcases rules.winner_cases side a with ⟨hn, hempty⟩ | ⟨r, hr, hbest⟩
  · rw [hn, hempty]
    rfl
  · rw [hr, best?_of_isBest hbest]
    rfl

end Trace

namespace Policy

theorem firstKeyword?_modeSteps (p : Policy) (a : Address) :
    (p.modeSteps a).firstKeyword? .allow = none := by
  rw [modeSteps]
  split
  · simp
  all_goals split <;> simp

theorem summary_keywordVerdict (p : Policy) (a : Address) :
    (p.keywordVerdict a).summary =
      match (Keyword.first? p.denyKeywords a).map Keyword.raw with
      | some raw => ⟨true, .denyKeyword, some raw, 0⟩
      | none => ⟨false, .noMatch, none, 0⟩ := by
  rw [keywordVerdict]
  cases Keyword.first? p.denyKeywords a <;> rfl

theorem summary_settle (allow deny : Rule) :
    (settle allow deny).summary =
      if deny.specificity ≤ allow.specificity then
        ⟨false, .allowRule, some allow.raw, allow.specificity⟩
      else ⟨true, .denyRule, some deny.raw, deny.specificity⟩ := by
  rw [settle]
  split <;> rfl

theorem replayRules_modeSteps (p : Policy) (a : Address) :
    (p.modeSteps a).replayRules p.mode = (p.ruleVerdict a).summary := by
  cases hm : p.mode with
  | whitelist =>
    cases ha : p.rules.winner .allow a <;> simp [modeSteps, ruleVerdict, Trace.replayRules, hm, ha]
  | blacklist =>
    simp only [modeSteps, ruleVerdict, hm, ← Ruleset.winner_eq_none_iff]
    cases hd : p.rules.winner .deny a with
    | none => simp [Trace.replayRules, summary_keywordVerdict, hd]
    | some d => simp [Trace.replayRules, hd]
  | combined =>
    simp only [modeSteps, ruleVerdict, hm, ← Ruleset.winner_eq_none_iff]
    cases ha : p.rules.winner .allow a with
    | none =>
      cases hd : p.rules.winner .deny a with
      | none => simp [Trace.replayRules, summary_keywordVerdict, ha, hd]
      | some d => simp [Trace.replayRules, ha, hd]
    | some r =>
      cases hd : p.rules.winner .deny a with
      | none => simp [Trace.replayRules, ha, hd]
      | some d => simp [Trace.replayRules, summary_settle, ha, hd]

theorem replay_steps (p : Policy) (a : Address) :
    (p.steps a).replay p.mode = (p.verdict a).summary := by
  cases hk : Keyword.first? p.allowKeywords a with
  | some k => simp [steps, verdict, Trace.replay, hk]
  | none =>
    have hsteps : p.steps a = keywordSteps .allow p.allowKeywords a ++ p.modeSteps a := by
      simp [steps, Keyword.any_occursIn, hk]
    have hkeyword : (p.steps a).firstKeyword? .allow = none := by
      simp [hsteps, hk, firstKeyword?_modeSteps]
    have hrules : (p.steps a).replayRules p.mode = (p.modeSteps a).replayRules p.mode := by
      simp [hsteps, Trace.replayRules]
    rw [Trace.replay, hkeyword, verdict, hk]
    exact hrules.trans (p.replayRules_modeSteps a)

/-- A decision with a trace differs from the one without in nothing but the trace. -/
theorem withoutTrace_decide (p : Policy) (url : Text) (isExempt : Text → Bool) :
    (p.decide url isExempt true).withoutTrace = p.decide url isExempt false ∧
      (p.decide url isExempt true).trace.isSome = true ∧
      (p.decide url isExempt false).trace = none := by
  rw [decide_eq, decide_eq]
  split
  · exact ⟨rfl, rfl, rfl⟩
  · split <;> exact ⟨rfl, rfl, rfl⟩

/-- The trace of a page of the browser, or of a host that is allowed for a time, is empty. Every
other trace has the steps of the lists that could still decide, and the verdict is read off it. -/
theorem decide_trace_replay (p : Policy) (url : Text) (isExempt : Text → Bool) :
    let a := Address.read url
    let d := p.decide url isExempt true
    if a.isInternal ∨ isExempt a.host then d.trace = some []
    else d.trace = some (p.steps a) ∧ d.verdict.summary = (p.steps a).replay p.mode := by
  dsimp only
  rw [decide_eq]
  by_cases hi : (Address.read url).isInternal
  · simp [hi]
  · by_cases he : isExempt (Address.read url).host
    · simp [hi, he]
    · simp [hi, he, replay_steps]

end Policy

end UrlPolicy
