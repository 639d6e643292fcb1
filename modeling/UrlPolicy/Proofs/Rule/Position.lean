import UrlPolicy.Proofs.Rule.Best

set_option autoImplicit false

namespace UrlPolicy

structure IsBestMatch (rules : List Rule) (a : Address) (m : RuleMatch) : Prop where
  rule : rules[m.position]? = some m.rule
  accepts : m.rule.accepts a = true
  specificity_le : ∀ (n : Nat) (r : Rule), rules[n]? = some r → r.accepts a = true →
    r.specificity ≤ m.rule.specificity
  specificity_lt : ∀ (n : Nat) (r : Rule), n < m.position → rules[n]? = some r →
    r.accepts a = true → r.specificity < m.rule.specificity

theorem mem_matchingRules_iff {rules : List Rule} {a : Address} {m : RuleMatch} :
    m ∈ matchingRules rules a ↔ rules[m.position]? = some m.rule ∧ m.rule.accepts a = true := by
  obtain ⟨position, rule⟩ := m
  simp only [matchingRules, List.mem_map, List.mem_filter, List.mem_zipIdx_iff_getElem?]
  constructor
  · rintro ⟨⟨r, n⟩, h, heq⟩
    cases heq
    exact h
  · exact fun h => ⟨(rule, position), h, rfl⟩

theorem matchingRules_pairwise (rules : List Rule) (a : Address) :
    (matchingRules rules a).Pairwise fun m n => m.position < n.position := by
  have hzip : (rules.zipIdx.filter fun r => r.1.accepts a).Pairwise fun r s => r.2 < s.2 := by
    refine List.Pairwise.filter _ (List.pairwise_map.1 ?_)
    rw [List.zipIdx_map_snd]
    exact List.pairwise_lt_range'
  exact List.pairwise_map.2 hzip

theorem RuleMatch.better_some (b m : RuleMatch) :
    RuleMatch.better (some b) m =
      some (if m.rule.specificity ≤ b.rule.specificity then b else m) := by
  rw [RuleMatch.better]
  split <;> rfl

theorem isBestMatch_of_isFirstMax {rules : List Rule} {a : Address} {m : RuleMatch}
    (h : IsFirstMax (·.rule.specificity) (matchingRules rules a) m) : IsBestMatch rules a m := by
  obtain ⟨hrule, haccepts⟩ := mem_matchingRules_iff.1 h.mem
  have hfound (n : Nat) (r : Rule) (hr : rules[n]? = some r) (hra : r.accepts a = true) :
      (⟨n, r⟩ : RuleMatch) ∈ matchingRules rules a := mem_matchingRules_iff.2 ⟨hr, hra⟩
  refine ⟨hrule, haccepts, fun n r hr hra => h.key_le (hfound n r hr hra), fun n r hn hr hra => ?_⟩
  have hmem := hfound n r hr hra
  have hpairwise := matchingRules_pairwise rules a
  obtain ⟨before, after, heq, hlt, _⟩ := h
  rw [heq] at hmem hpairwise
  -- the matches behind the best one have later places
  rcases List.mem_append.1 hmem with hmem | hmem
  · exact hlt _ hmem
  · rcases List.mem_cons.1 hmem with rfl | hmem
    · exact absurd hn (Nat.lt_irrefl n)
    · have hafter := (List.pairwise_cons.1 (List.pairwise_append.1 hpairwise).2.1).1 _ hmem
      exact absurd (Nat.lt_trans hn hafter) (Nat.lt_irrefl n)

theorem isBestMatch_of_bestMatch {rules : List Rule} {a : Address} {m : RuleMatch}
    (h : bestMatch (matchingRules rules a) = some m) : IsBestMatch rules a m := by
  refine isBestMatch_of_isFirstMax ?_
  cases hfound : matchingRules rules a with
  | nil =>
    rw [hfound] at h
    cases h
  | cons b found =>
    rw [hfound] at h
    obtain ⟨m', hm', hmax⟩ := IsFirstMax.exists_foldl RuleMatch.better_some b found
    cases hm'.symm.trans h
    exact hmax

end UrlPolicy
