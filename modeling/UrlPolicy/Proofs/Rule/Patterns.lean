import Mathlib.Order.Bounds.Basic
import UrlPolicy.Proofs.Rule.Thinning

set_option autoImplicit false

namespace UrlPolicy

/-- The entries of both lists are read as the same patterns. -/
def SamePatterns (entries entries' : List Text) : Prop :=
  ∀ p, p ∈ entries.filterMap Pattern.parse? ↔ p ∈ entries'.filterMap Pattern.parse?

def matchedSpecificities (patterns : List Pattern) (a : Address) : Set Nat :=
  {n | ∃ p ∈ patterns, p.outcome a = .matched ∧ p.specificity = n}

theorem matchedSpecificities_congr {patterns patterns' : List Pattern} (a : Address)
    (h : ∀ p, p ∈ patterns ↔ p ∈ patterns') :
    matchedSpecificities patterns a = matchedSpecificities patterns' a := by
  simp only [matchedSpecificities, h]

theorem mem_matchedSpecificities_iff {rules : List Rule} {a : Address} {n : Nat} :
    n ∈ matchedSpecificities (rules.filterMap Rule.pattern) a ↔
      ∃ r ∈ rules.filter (·.accepts a), r.specificity = n := by
  constructor
  · rintro ⟨p, hp, hmatched, rfl⟩
    obtain ⟨r, hr, hpattern⟩ := List.mem_filterMap.1 hp
    exact ⟨r, List.mem_filter.2 ⟨hr, (Rule.accepts_of_some hpattern).2 hmatched⟩,
      Rule.specificity_of_some hpattern⟩
  · rintro ⟨r, hr, rfl⟩
    obtain ⟨hr, haccepts⟩ := List.mem_filter.1 hr
    cases hpattern : r.pattern with
    | none =>
      rw [Rule.not_accepts_of_none hpattern] at haccepts
      cases haccepts
    | some p =>
      exact ⟨p, List.mem_filterMap.2 ⟨r, hr, hpattern⟩, (Rule.accepts_of_some hpattern).1 haccepts,
        (Rule.specificity_of_some hpattern).symm⟩

theorem IsBest.isGreatest {rules : List Rule} {a : Address} {r : Rule}
    (h : IsBest (rules.filter (·.accepts a)) r) :
    IsGreatest (matchedSpecificities (rules.filterMap Rule.pattern) a) r.specificity := by
  refine ⟨mem_matchedSpecificities_iff.2 ⟨r, h.mem, rfl⟩, fun n hn => ?_⟩
  obtain ⟨s, hs, rfl⟩ := mem_matchedSpecificities_iff.1 hn
  exact h.specificity_le hs

namespace Ruleset

theorem winner_isGreatest {rs : Ruleset} {side : Side} {a : Address} {r : Rule}
    (h : rs.winner side a = some r) :
    IsGreatest (matchedSpecificities ((rs.list side).filterMap Rule.pattern) a) r.specificity :=
  (isBest_of_winner h).isGreatest

theorem matchedSpecificities_eq_empty {rs : Ruleset} {side : Side} {a : Address}
    (h : rs.winner side a = none) :
    matchedSpecificities ((rs.list side).filterMap Rule.pattern) a = ∅ := by
  refine Set.eq_empty_of_forall_notMem fun n hn => ?_
  obtain ⟨r, hr, _⟩ := mem_matchedSpecificities_iff.1 hn
  have hempty : rs.accepting side a = [] := winner_eq_none_iff.1 h
  rw [accepting] at hempty
  rw [hempty] at hr
  cases hr

theorem winner_specificity_congr {rs rs' : Ruleset} {side : Side} (a : Address)
    (h : ∀ p, p ∈ (rs.list side).filterMap Rule.pattern ↔
      p ∈ (rs'.list side).filterMap Rule.pattern) :
    (rs.winner side a).map Rule.specificity = (rs'.winner side a).map Rule.specificity := by
  have hset := matchedSpecificities_congr a h
  cases hw : rs.winner side a with
  | none =>
    have hempty := matchedSpecificities_eq_empty hw
    cases hw' : rs'.winner side a with
    | none => rfl
    | some r' =>
      have hmem := (winner_isGreatest hw').1
      rw [← hset, hempty] at hmem
      cases hmem
  | some r =>
    have hr := winner_isGreatest hw
    rw [hset] at hr
    cases hw' : rs'.winner side a with
    | none =>
      have hmem := hr.1
      rw [matchedSpecificities_eq_empty hw'] at hmem
      cases hmem
    | some r' => exact congrArg some (hr.unique (winner_isGreatest hw'))

end Ruleset

theorem filterMap_pattern_readRules (entries : List Text) :
    (readRules entries).filterMap Rule.pattern = entries.filterMap Pattern.parse? := by
  rw [readRules, List.filterMap_map]
  exact congrArg (List.filterMap · entries) (funext Rule.read_pattern)

end UrlPolicy
