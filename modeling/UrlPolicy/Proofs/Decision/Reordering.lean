import UrlPolicy.Proofs.Decision.Evidence
import UrlPolicy.Proofs.Decision.Thinning
import UrlPolicy.Proofs.Rule.Patterns

/-!
Decisions over two rulesets with the same patterns. Main statement: however the entries are
ordered, repeated and spelled, and whether repeated patterns are dropped or not, the verdicts agree
but for the entries that they name, and rules that they name match and are equally specific.
-/

set_option autoImplicit false

namespace UrlPolicy

/-- The two verdicts differ at most in the entries that they name. -/
structure Verdict.Agrees (v w : Verdict) : Prop where
  blocked : v.blocked = w.blocked
  source : v.source = w.source
  specificity : v.specificity = w.specificity
  overridden : v.overriddenRule.isSome = w.overriddenRule.isSome

/-- The rulesets that two lists of entries are made into: with all rules, or without those whose
pattern was there before. -/
inductive Ruleset.Built (allow deny : List Text) : Ruleset → Prop where
  | whole : Built allow deny (.ofEntries allow deny)
  | deduplicated : Built allow deny (compile allow deny).rules

namespace Ruleset

theorem Built.winner_eq {allow deny : List Text} {rs : Ruleset} (h : Built allow deny rs)
    (side : Side) (a : Address) : rs.winner side a = (ofEntries allow deny).winner side a := by
  cases h with
  | whole => rfl
  | deduplicated => exact winner_thinned (compile_thinned allow deny side)

theorem Built.winner_specificity {allow deny allow' deny' : List Text} {rs rs' : Ruleset}
    (h : Built allow deny rs) (h' : Built allow' deny' rs') (hallow : SamePatterns allow allow')
    (hdeny : SamePatterns deny deny') (side : Side) (a : Address) :
    (rs.winner side a).map Rule.specificity = (rs'.winner side a).map Rule.specificity := by
  rw [h.winner_eq, h'.winner_eq]
  refine winner_specificity_congr a ?_
  cases side with
  | allow =>
    simp only [list, ofEntries, filterMap_pattern_readRules]
    exact hallow
  | deny =>
    simp only [list, ofEntries, filterMap_pattern_readRules]
    exact hdeny

end Ruleset

theorem Keyword.first?_isSome_of_perm {keywords keywords' : List Keyword}
    (h : keywords.Perm keywords') (a : Address) :
    (first? keywords a).isSome = (first? keywords' a).isSome := by
  rw [← any_occursIn, ← any_occursIn]
  exact h.any_eq

namespace Policy

/-- The winners of the two policies are equally specific, and their keywords are the same up to
the order. -/
structure Alike (p q : Policy) (a : Address) : Prop where
  mode : p.mode = q.mode
  winner : ∀ side, (p.rules.winner side a).map Rule.specificity =
    (q.rules.winner side a).map Rule.specificity
  allowKeywords : p.allowKeywords.Perm q.allowKeywords
  denyKeywords : p.denyKeywords.Perm q.denyKeywords

theorem agrees_settle {r r' d d' : Rule} (hr : r.specificity = r'.specificity)
    (hd : d.specificity = d'.specificity) : (settle r d).Agrees (settle r' d') := by
  rw [settle, settle, hr, hd]
  split
  · exact ⟨rfl, rfl, hr, rfl⟩
  · exact ⟨rfl, rfl, hd, rfl⟩

namespace Alike

variable {p q : Policy} {a : Address}

theorem winner_cases (h : p.Alike q a) (side : Side) :
    p.rules.winner side a = none ∧ q.rules.winner side a = none ∨
      ∃ r r', p.rules.winner side a = some r ∧ q.rules.winner side a = some r' ∧
        r.specificity = r'.specificity := by
  have hmap := h.winner side
  cases hp : p.rules.winner side a with
  | none =>
    rw [hp] at hmap
    exact .inl ⟨rfl, Option.map_eq_none_iff.1 hmap.symm⟩
  | some r =>
    rw [hp] at hmap
    obtain ⟨r', hr', heq⟩ := Option.map_eq_some_iff.1 hmap.symm
    exact .inr ⟨r, r', rfl, hr', heq.symm⟩

theorem agrees_keywordVerdict (h : p.Alike q a) :
    (p.keywordVerdict a).Agrees (q.keywordVerdict a) := by
  have hsome := Keyword.first?_isSome_of_perm h.denyKeywords a
  rw [keywordVerdict, keywordVerdict]
  cases hp : Keyword.first? p.denyKeywords a <;> cases hq : Keyword.first? q.denyKeywords a
  · exact ⟨rfl, rfl, rfl, rfl⟩
  · simp [hp, hq] at hsome
  · simp [hp, hq] at hsome
  · exact ⟨rfl, rfl, rfl, rfl⟩

theorem agrees_ruleVerdict (h : p.Alike q a) : (p.ruleVerdict a).Agrees (q.ruleVerdict a) := by
  have hq : q.mode = p.mode := h.mode.symm
  cases hm : p.mode with
  | whitelist =>
    rw [hm] at hq
    rcases h.winner_cases .allow with ⟨hp, hp'⟩ | ⟨r, r', hr, hr', heq⟩
    · simp only [ruleVerdict, hm, hq, hp, hp']
      exact ⟨rfl, rfl, rfl, rfl⟩
    · simp only [ruleVerdict, hm, hq, hr, hr']
      exact ⟨rfl, rfl, heq, rfl⟩
  | blacklist =>
    rw [hm] at hq
    rcases h.winner_cases .deny with ⟨hp, hp'⟩ | ⟨d, d', hd, hd', heq⟩
    · simp only [ruleVerdict, hm, hq, hp, hp']
      exact h.agrees_keywordVerdict
    · simp only [ruleVerdict, hm, hq, hd, hd']
      exact ⟨rfl, rfl, heq, rfl⟩
  | combined =>
    rw [hm] at hq
    rcases h.winner_cases .allow with ⟨hp, hp'⟩ | ⟨r, r', hr, hr', hallow⟩ <;>
      rcases h.winner_cases .deny with ⟨hn, hn'⟩ | ⟨d, d', hd, hd', hdeny⟩
    · simp only [ruleVerdict, hm, hq, hp, hp', hn, hn']
      exact h.agrees_keywordVerdict
    · simp only [ruleVerdict, hm, hq, hp, hp', hd, hd']
      exact ⟨rfl, rfl, hdeny, rfl⟩
    · simp only [ruleVerdict, hm, hq, hr, hr', hn, hn']
      exact ⟨rfl, rfl, hallow, rfl⟩
    · simp only [ruleVerdict, hm, hq, hr, hr', hd, hd']
      exact agrees_settle hallow hdeny

theorem agrees_verdict (h : p.Alike q a) : (p.verdict a).Agrees (q.verdict a) := by
  have hsome := Keyword.first?_isSome_of_perm h.allowKeywords a
  rw [verdict, verdict]
  cases hp : Keyword.first? p.allowKeywords a <;> cases hq : Keyword.first? q.allowKeywords a
  · exact h.agrees_ruleVerdict
  · simp [hp, hq] at hsome
  · simp [hp, hq] at hsome
  · exact ⟨rfl, rfl, rfl, rfl⟩

end Alike

theorem agrees_decide {p q : Policy} {url : Text} (h : p.Alike q (Address.read url))
    (isExempt : Text → Bool) (traced : Bool) :
    (p.decide url isExempt traced).verdict.Agrees (q.decide url isExempt traced).verdict := by
  rw [decide_verdict, decide_verdict]
  split
  · exact ⟨rfl, rfl, rfl, rfl⟩
  · split
    · exact ⟨rfl, rfl, rfl, rfl⟩
    · exact h.agrees_verdict

theorem exists_rule_of_source {p : Policy} {url : Text} {isExempt : Text → Bool} {traced : Bool}
    {side : Side} (h : (p.decide url isExempt traced).verdict.source = side.ruleSource) :
    ∃ r ∈ p.rules.list side, r.accepts (Address.read url) = true ∧
      (p.decide url isExempt traced).verdict.matchedRule = some r.raw ∧
      r.specificity = (p.decide url isExempt traced).verdict.specificity := by
  rw [decide_verdict] at h ⊢
  split at h
  · cases side <;> cases h
  · split at h
    · cases side <;> cases h
    · next hi he =>
      rw [if_neg hi, if_neg he]
      obtain ⟨m, _, hbest, hraw, hspecificity⟩ := (p.evidence_verdict _).rule side h
      exact ⟨m.rule, List.mem_of_getElem? hbest.rule, hbest.accepts, hraw, hspecificity.symm⟩

end Policy

/-- The order, repetition and spelling of the entries, entries that are no pattern, and the order
of the keywords change nothing about a verdict but the entries that it names. Rules that are named
both match the address and are equally specific. -/
theorem agrees_of_samePatterns {allow deny allow' deny' : List Text}
    (hallow : SamePatterns allow allow') (hdeny : SamePatterns deny deny') {rs rs' : Ruleset}
    (hrs : Ruleset.Built allow deny rs) (hrs' : Ruleset.Built allow' deny' rs')
    {allowKeywords allowKeywords' denyKeywords denyKeywords' : List Keyword}
    (hallowKeywords : allowKeywords.Perm allowKeywords')
    (hdenyKeywords : denyKeywords.Perm denyKeywords') (mode : Mode) (url : Text)
    (isExempt : Text → Bool) (traced : Bool) :
    let v := ((⟨rs, allowKeywords, denyKeywords, mode⟩ : Policy).decide
      url isExempt traced).verdict
    let v' := ((⟨rs', allowKeywords', denyKeywords', mode⟩ : Policy).decide
      url isExempt traced).verdict
    v.Agrees v' ∧ ∀ side : Side, v.source = side.ruleSource →
      ∃ r ∈ rs.list side, ∃ r' ∈ rs'.list side,
        v.matchedRule = some r.raw ∧ v'.matchedRule = some r'.raw ∧
        r.accepts (Address.read url) = true ∧ r'.accepts (Address.read url) = true ∧
        r.specificity = v.specificity ∧ r'.specificity = v.specificity := by
  intro v v'
  have halike : Policy.Alike ⟨rs, allowKeywords, denyKeywords, mode⟩
      ⟨rs', allowKeywords', denyKeywords', mode⟩ (Address.read url) :=
    ⟨rfl, fun side => hrs.winner_specificity hrs' hallow hdeny side _, hallowKeywords,
      hdenyKeywords⟩
  have hagrees : v.Agrees v' := Policy.agrees_decide halike isExempt traced
  refine ⟨hagrees, fun side hsource => ?_⟩
  obtain ⟨r, hr, hra, hraw, hspecificity⟩ := Policy.exists_rule_of_source hsource
  obtain ⟨r', hr', hra', hraw', hspecificity'⟩ :=
    Policy.exists_rule_of_source (hagrees.source.symm.trans hsource)
  exact ⟨r, hr, r', hr', hraw, hraw', hra, hra', hspecificity,
    hspecificity'.trans hagrees.specificity.symm⟩

/-- Two allow rules are equally specific. Each list names the one that it gives first. -/
theorem agrees_of_samePatterns_reversed :
    let allow := ["a.com/x/*".toList, "bad..com".toList, "a.com/*/y".toList]
    let allow' := ["A.com./*/Y".toList, "a.com:80/X/*/".toList, "a.com/*/y/".toList]
    let deny := ["*.a.com".toList, "a.com".toList]
    let deny' := ["a.com".toList, "*.A.com".toList, "a.com.".toList]
    let keywords : List Keyword := [⟨['p'], ['p']⟩, ⟨['q'], ['q']⟩]
    let v := ((⟨.ofEntries allow deny, [], keywords, .combined⟩ : Policy).decide
      "http://a.com/x/y".toList (fun _ => false) false).verdict
    let v' := ((⟨(compile allow' deny').rules, [], keywords.reverse, .combined⟩ : Policy).decide
      "http://a.com/x/y".toList (fun _ => false) false).verdict
    SamePatterns allow allow' ∧ SamePatterns deny deny' ∧ keywords.Perm keywords.reverse ∧
      v.Agrees v' ∧ v.source = .allowRule ∧ v.matchedRule = some "a.com/x/*".toList ∧
      v'.matchedRule = some "A.com./*/Y".toList ∧
      ∃ r ∈ (Ruleset.ofEntries allow deny).allow, ∃ r' ∈ (compile allow' deny').rules.allow,
        v.matchedRule = some r.raw ∧ v'.matchedRule = some r'.raw ∧
        r.specificity = v.specificity ∧ r'.specificity = v.specificity := by
  intro allow allow' deny deny' keywords v v'
  let under : Pattern := ⟨none, false, "a.com".toList, .under "/x".toList, false⟩
  let between : Pattern :=
    ⟨none, false, "a.com".toList, .segmented [.any, .literal ['y']], false⟩
  let host : Pattern := ⟨none, false, "a.com".toList, .anywhere, false⟩
  let subdomains : Pattern := ⟨none, true, "a.com".toList, .anywhere, false⟩
  have hswap (p s t : Pattern) : p ∈ [s, t] ↔ p ∈ [t, s, t] := by
    simp only [List.mem_cons, List.not_mem_nil, or_false]
    exact ⟨fun h => .inr h, fun h => h.elim .inr id⟩
  have hallow : SamePatterns allow allow' := by
    have h : allow.filterMap Pattern.parse? = [under, between] := by decide
    have h' : allow'.filterMap Pattern.parse? = [between, under, between] := by decide
    intro p
    rw [h, h']
    exact hswap p _ _
  have hdeny : SamePatterns deny deny' := by
    have h : deny.filterMap Pattern.parse? = [subdomains, host] := by decide
    have h' : deny'.filterMap Pattern.parse? = [host, subdomains, host] := by decide
    intro p
    rw [h, h']
    exact hswap p _ _
  have hkeywords : keywords.Perm keywords.reverse := (List.reverse_perm keywords).symm
  obtain ⟨hagrees, hrules⟩ := agrees_of_samePatterns hallow hdeny .whole .deduplicated
    (List.Perm.refl []) hkeywords .combined "http://a.com/x/y".toList (fun _ => false) false
  have hsource : v.source = .allowRule := by decide
  obtain ⟨r, hr, r', hr', hraw, hraw', _, _, hspecificity⟩ := hrules .allow hsource
  exact ⟨hallow, hdeny, hkeywords, hagrees, hsource, by decide, by decide, r, hr, r', hr', hraw,
    hraw', hspecificity⟩

end UrlPolicy
