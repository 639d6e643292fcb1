import UrlPolicy.Proofs.Decision.Stages
import UrlPolicy.Proofs.Rule.Position

/-!
The evidence of a decision. Main statement: the entry that a decision names is the first of the
best matching rules, or the first occurring keyword, of the list that decided; and a rule is named
as overridden exactly when a rule of each list matched in the mode that compares them.
-/

set_option autoImplicit false

namespace UrlPolicy

namespace Side

def other : Side → Side
  | .allow => .deny
  | .deny => .allow

def ruleSource : Side → Source
  | .allow => .allowRule
  | .deny => .denyRule

def keywordSource : Side → Source
  | .allow => .allowKeyword
  | .deny => .denyKeyword

theorem ruleSource_injective {side side' : Side} (h : side.ruleSource = side'.ruleSource) :
    side = side' := by
  cases side <;> cases side' <;> simp_all [ruleSource]

theorem keywordSource_injective {side side' : Side}
    (h : side.keywordSource = side'.keywordSource) : side = side' := by
  cases side <;> cases side' <;> simp_all [keywordSource]

theorem ruleSource_ne_keywordSource (side side' : Side) :
    side.ruleSource ≠ side'.keywordSource := by
  cases side <;> cases side' <;> simp [ruleSource, keywordSource]

end Side

def Verdict.ofRule : Side → Rule → Option Rule → Verdict
  | .allow => .allowRule
  | .deny => .denyRule

def Verdict.ofKeyword : Side → Keyword → Verdict
  | .allow => .allowKeyword
  | .deny => .denyKeyword

def Keyword.IsFirst (keywords : List Keyword) (a : Address) (k : Keyword) : Prop :=
  k.occursIn a = true ∧
    ∃ before after, keywords = before ++ k :: after ∧ ∀ j ∈ before, j.occursIn a = false

theorem Keyword.isFirst_of_first? {keywords : List Keyword} {a : Address} {k : Keyword}
    (h : first? keywords a = some k) : IsFirst keywords a k := by
  simpa [IsFirst] using List.find?_eq_some_iff_append.1 h

theorem Ruleset.exists_best_of_winner {rs : Ruleset} {side : Side} {a : Address} {r : Rule}
    (h : rs.winner side a = some r) :
    ∃ m, rs.best side a = some m ∧ m.rule = r ∧ IsBestMatch (rs.list side) a m := by
  obtain ⟨m, hm, hrule⟩ := Option.map_eq_some_iff.1 h
  exact ⟨m, hm, hrule, isBestMatch_of_bestMatch hm⟩

namespace Policy

def keywords (p : Policy) : Side → List Keyword
  | .allow => p.allowKeywords
  | .deny => p.denyKeywords

/-- What a verdict tells of the entries behind it is so. -/
structure Evidence (p : Policy) (a : Address) (v : Verdict) : Prop where
  rule : ∀ side, v.source = side.ruleSource →
    ∃ m, p.rules.best side a = some m ∧ IsBestMatch (p.rules.list side) a m ∧
      v.matchedRule = some m.rule.raw ∧ v.specificity = m.rule.specificity
  keyword : ∀ side, v.source = side.keywordSource →
    ∃ k, Keyword.IsFirst (p.keywords side) a k ∧ v.matchedRule = some k.raw ∧ v.specificity = 0
  no_entry : (∀ side : Side, v.source ≠ side.ruleSource ∧ v.source ≠ side.keywordSource) →
    v.matchedRule = none ∧ v.specificity = 0
  overridden_isSome_iff : v.overriddenRule.isSome = true ↔
    p.mode = .combined ∧ (∃ side : Side, v.source = side.ruleSource) ∧
      ∀ side, p.rules.AnyAccepts side a
  /-- The rule set aside is the best one of the list that lost. It is no more specific than the
  winner, and less specific if it allows. -/
  overridden : ∀ side raw, v.source = side.ruleSource → v.overriddenRule = some raw →
    ∃ winner loser, p.rules.best side a = some winner ∧ p.rules.best side.other a = some loser ∧
      IsBestMatch (p.rules.list side.other) a loser ∧ raw = loser.rule.raw ∧
      loser.rule.specificity ≤ winner.rule.specificity ∧
      (side = .deny → loser.rule.specificity < winner.rule.specificity)

section

variable {p : Policy} {a : Address}

theorem evidence_of_no_entry {v : Verdict}
    (hsource : ∀ side : Side, v.source ≠ side.ruleSource ∧ v.source ≠ side.keywordSource)
    (hrule : v.matchedRule = none) (hspecificity : v.specificity = 0)
    (hoverridden : v.overriddenRule = none) : p.Evidence a v where
  rule side h := absurd h (hsource side).1
  keyword side h := absurd h (hsource side).2
  no_entry _ := ⟨hrule, hspecificity⟩
  overridden_isSome_iff := by
    refine iff_of_false (by simp [hoverridden]) ?_
    rintro ⟨_, ⟨side, h⟩, _⟩
    exact (hsource side).1 h
  overridden side _ h := absurd h (hsource side).1

theorem evidence_ofKeyword (side : Side) {k : Keyword}
    (h : Keyword.first? (p.keywords side) a = some k) : p.Evidence a (.ofKeyword side k) := by
  have hsource : (Verdict.ofKeyword side k).source = side.keywordSource := by cases side <;> rfl
  have hraw : (Verdict.ofKeyword side k).matchedRule = some k.raw := by cases side <;> rfl
  have hspecificity : (Verdict.ofKeyword side k).specificity = 0 := by cases side <;> rfl
  have hoverridden : (Verdict.ofKeyword side k).overriddenRule = none := by cases side <;> rfl
  have hno_rule (side' : Side) : (Verdict.ofKeyword side k).source ≠ side'.ruleSource := by
    rw [hsource]
    exact (Side.ruleSource_ne_keywordSource side' side).symm
  refine ⟨fun side' h => absurd h (hno_rule side'), fun side' h' => ?_, fun hnone => ?_, ?_,
    fun side' _ h => absurd h (hno_rule side')⟩
  · cases Side.keywordSource_injective (hsource.symm.trans h')
    exact ⟨k, Keyword.isFirst_of_first? h, hraw, hspecificity⟩
  · exact absurd hsource (hnone side).2
  · refine iff_of_false (by simp [hoverridden]) ?_
    rintro ⟨_, ⟨side', h⟩, _⟩
    exact hno_rule side' h

theorem forall_anyAccepts_iff {side : Side} (h : p.rules.AnyAccepts side a) :
    (∀ side, p.rules.AnyAccepts side a) ↔ (p.rules.winner side.other a).isSome = true := by
  rw [Option.isSome_iff_exists, ← Ruleset.anyAccepts_iff]
  refine ⟨fun hall => hall side.other, fun hother side' => ?_⟩
  cases side <;> cases side' <;> assumption

theorem evidence_ofRule (side : Side) {r : Rule} (h : p.rules.winner side a = some r)
    {loser : Option Rule}
    (hloser : loser = if p.mode = .combined then p.rules.winner side.other a else none)
    (hle : ∀ s, loser = some s →
      s.specificity ≤ r.specificity ∧ (side = .deny → s.specificity < r.specificity)) :
    p.Evidence a (.ofRule side r loser) := by
  have hsource : (Verdict.ofRule side r loser).source = side.ruleSource := by cases side <;> rfl
  have hraw : (Verdict.ofRule side r loser).matchedRule = some r.raw := by cases side <;> rfl
  have hspecificity : (Verdict.ofRule side r loser).specificity = r.specificity := by
    cases side <;> rfl
  have hoverridden : (Verdict.ofRule side r loser).overriddenRule = loser.map Rule.raw := by
    cases side <;> rfl
  obtain ⟨m, hm, rfl, hbest⟩ := Ruleset.exists_best_of_winner h
  refine ⟨?rule, ?keyword, fun hnone => absurd hsource (hnone side).1, ?isSome_iff, ?overridden⟩
  case rule =>
    intro side' h'
    cases Side.ruleSource_injective (hsource.symm.trans h')
    exact ⟨m, hm, hbest, hraw, hspecificity⟩
  case keyword =>
    intro side' h'
    exact absurd (hsource.symm.trans h') (Side.ruleSource_ne_keywordSource side side')
  case isSome_iff =>
    have hboth := forall_anyAccepts_iff (Ruleset.anyAccepts_iff.2 ⟨m.rule, h⟩)
    have hsome : loser.isSome = true ↔
        p.mode = .combined ∧ (p.rules.winner side.other a).isSome = true := by
      rw [hloser]
      split <;> simp_all
    rw [hoverridden, Option.isSome_map, hsome, hboth]
    exact and_congr_right fun _ => ⟨fun h => ⟨⟨side, hsource⟩, h⟩, fun h => h.2⟩
  case overridden =>
    intro side' raw h' hs
    cases Side.ruleSource_injective (hsource.symm.trans h')
    rw [hoverridden] at hs
    obtain ⟨s, hsome, rfl⟩ := Option.map_eq_some_iff.1 hs
    obtain ⟨hle, hlt⟩ := hle s hsome
    -- a rule is set aside only where the lists are compared
    have hother : p.rules.winner side.other a = some s := by
      rw [hsome] at hloser
      split at hloser
      · exact hloser.symm
      · cases hloser
    obtain ⟨l, hl, rfl, hlbest⟩ := Ruleset.exists_best_of_winner hother
    exact ⟨m, l, hm, hl, hlbest, rfl, hle, hlt⟩

theorem evidence_settle {r d : Rule} (hm : p.mode = .combined)
    (hallow : p.rules.winner .allow a = some r) (hdeny : p.rules.winner .deny a = some d) :
    p.Evidence a (settle r d) := by
  rw [settle]
  split
  · next hle =>
    refine evidence_ofRule .allow hallow (by simp [hm, Side.other, hdeny]) ?_
    rintro s ⟨⟩
    exact ⟨hle, by simp⟩
  · next hlt =>
    refine evidence_ofRule .deny hdeny (by simp [hm, Side.other, hallow]) ?_
    rintro s ⟨⟩
    exact ⟨by omega, fun _ => by omega⟩

theorem evidence_keywordVerdict (p : Policy) (a : Address) :
    p.Evidence a (p.keywordVerdict a) := by
  rw [keywordVerdict]
  cases hk : Keyword.first? p.denyKeywords a with
  | some k => exact evidence_ofKeyword .deny hk
  | none => exact evidence_of_no_entry (by rintro ⟨⟩ <;> decide) rfl rfl rfl

theorem evidence_ruleVerdict (p : Policy) (a : Address) : p.Evidence a (p.ruleVerdict a) := by
  cases hm : p.mode with
  | whitelist =>
    cases hallow : p.rules.winner .allow a with
    | none =>
      simp only [ruleVerdict, hm, hallow]
      exact evidence_of_no_entry (by rintro ⟨⟩ <;> decide) rfl rfl rfl
    | some r =>
      simp only [ruleVerdict, hm, hallow]
      exact evidence_ofRule .allow hallow (by simp [hm]) (by simp)
  | blacklist =>
    cases hdeny : p.rules.winner .deny a with
    | none =>
      simp only [ruleVerdict, hm, hdeny]
      exact p.evidence_keywordVerdict a
    | some d =>
      simp only [ruleVerdict, hm, hdeny]
      exact evidence_ofRule .deny hdeny (by simp [hm]) (by simp)
  | combined =>
    cases hallow : p.rules.winner .allow a with
    | none =>
      cases hdeny : p.rules.winner .deny a with
      | none =>
        simp only [ruleVerdict, hm, hallow, hdeny]
        exact p.evidence_keywordVerdict a
      | some d =>
        simp only [ruleVerdict, hm, hallow, hdeny]
        exact evidence_ofRule .deny hdeny (by simp [hm, Side.other, hallow]) (by simp)
    | some r =>
      cases hdeny : p.rules.winner .deny a with
      | none =>
        simp only [ruleVerdict, hm, hallow, hdeny]
        exact evidence_ofRule .allow hallow (by simp [hm, Side.other, hdeny]) (by simp)
      | some d =>
        simp only [ruleVerdict, hm, hallow, hdeny]
        exact evidence_settle hm hallow hdeny

theorem evidence_verdict (p : Policy) (a : Address) : p.Evidence a (p.verdict a) := by
  rw [verdict]
  cases hk : Keyword.first? p.allowKeywords a with
  | some k => exact evidence_ofKeyword .allow hk
  | none => exact p.evidence_ruleVerdict a

end

/-- Every decision has its evidence. -/
theorem decide_evidence (p : Policy) (url : Text) (isExempt : Text → Bool) (traced : Bool) :
    p.Evidence (Address.read url) (p.decide url isExempt traced).verdict := by
  rw [decide_verdict]
  split
  · exact evidence_of_no_entry (by rintro ⟨⟩ <;> decide) rfl rfl rfl
  · split
    · exact evidence_of_no_entry (by rintro ⟨⟩ <;> decide) rfl rfl rfl
    · exact p.evidence_verdict (Address.read url)

end Policy

end UrlPolicy
