import UrlPolicy.Proofs.Matching.Covering
import UrlPolicy.Proofs.Pattern.Collection
import UrlPolicy.Proofs.Pattern.Parser

/-!
Scores of patterns of which one covers the other. Main statement: of two patterns without a query,
the one with fewer paths has at least the score of the other, by its kind and by the collection that
it names a member of.
-/

set_option autoImplicit false

namespace UrlPolicy

open SegmentPattern (StarFree)

namespace PathPattern

section

variable {leading : List Text} {last : Text}

theorem baseScore_of_starFree (h : StarFree (leading ++ [last])) :
    (ofTexts leading last).baseScore = 30 := by
  rw [ofTexts_literal h]
  rfl

theorem baseScore_of_not_starFree (h : ¬ StarFree (leading ++ [last]))
    (hlone : ¬ IsLone leading last) : (ofTexts leading last).baseScore = 20 := by
  rcases ofTexts_cases leading last with ⟨hstars, _⟩ | ⟨hfree, _⟩ | ⟨_, hread⟩ | ⟨_, hread⟩
  · exact absurd hstars hlone
  · exact absurd hfree h
  · rw [hread]
    rfl
  · rw [hread]
    rfl

theorem ten_le_baseScore (leading : List Text) (last : Text) :
    10 ≤ (ofTexts leading last).baseScore := by
  by_cases hlone : IsLone leading last
  · rw [ofTexts_of_isLone hlone]
    decide
  by_cases hfree : StarFree (leading ++ [last])
  · rw [baseScore_of_starFree hfree]
    decide
  · rw [baseScore_of_not_starFree hfree hlone]
    decide

end

variable {p q : PathPattern}

theorem baseScore_le_of_covers (hp : p.IsPlain) (hq : q.IsPlain) (hcovers : q.Covers p) :
    q.baseScore ≤ p.baseScore := by
  have hfive : 5 ≤ p.baseScore := by
    cases p <;> simp [baseScore]
  cases hq with
  | anywhere => exact hfive
  | root => exact hfive
  | @ofTexts leading last hq =>
    obtain ⟨leading', last', hp', rfl⟩ := hcovers.exists_ofTexts hq hp
    by_cases hlone : IsLone leading last
    · rw [ofTexts_of_isLone hlone]
      exact ten_le_baseScore leading' last'
    have hlone' := hcovers.not_isLone hq hlone
    by_cases hfree : StarFree (leading ++ [last])
    · -- all segments are fixed, so that the narrower pattern has no others
      obtain ⟨more, hmore, hnil⟩ :=
        hcovers.eq_append hq hp' hlone (List.append_nil _).symm hfree
      rw [hnil rfl, List.append_nil] at hmore
      rw [baseScore_of_starFree hfree, baseScore_of_starFree (hmore ▸ hfree)]
    · rw [baseScore_of_not_starFree hfree hlone]
      by_cases hfree' : StarFree (leading' ++ [last'])
      · rw [baseScore_of_starFree hfree']
        decide
      · rw [baseScore_of_not_starFree hfree' hlone']

theorem isInCollection_of_covers (hp : p.IsPlain) (hq : q.IsPlain) (hcovers : q.Covers p)
    (h : q.isInCollection = true) : p.isInCollection = true := by
  cases hq with
  | anywhere => cases h
  | root => cases h
  | @ofTexts leading last hq =>
    obtain ⟨leading', last', hp', rfl⟩ := hcovers.exists_ofTexts hq hp
    rw [isInCollection_ofTexts_iff hq.isSegmentation] at h
    obtain ⟨marker, name, rest, hsegments, hmarker, hstar, hname⟩ := h
    have hlone : ¬ IsLone leading last := by
      rintro ⟨rfl, _⟩
      cases hsegments
    have hfree : StarFree [marker, name] := by
      simpa [StarFree] using ⟨(plain_of_mem_collectionMarkers hmarker).1, hstar⟩
    obtain ⟨more, hmore, _⟩ : ∃ more, leading' ++ [last'] = [marker, name] ++ more ∧ _ :=
      hcovers.eq_append hq hp' hlone hsegments hfree
    rw [isInCollection_ofTexts_iff hp'.isSegmentation]
    exact ⟨marker, name, more, hmore, hmarker, hstar, hname⟩

theorem score_le_of_covers (hp : p.IsPlain) (hq : q.IsPlain) (hcovers : q.Covers p) :
    q.score ≤ p.score := by
  have hbase := baseScore_le_of_covers hp hq hcovers
  have hmember := isInCollection_of_covers hp hq hcovers
  rw [score, score]
  cases hcollection : q.isInCollection with
  | false => exact Nat.le_trans hbase (Nat.le_add_right _ _)
  | true =>
    rw [hmember hcollection]
    exact Nat.add_le_add_right hbase _

theorem isPlain_of_parse? {body : Text} (h : parse? ('/' :: body) = some p)
    (hquery : ∀ c ∈ body, startsQuery c = false) : p.IsPlain := by
  by_cases hbody : body = []
  · rw [hbody] at h
    cases h
    exact .root
  obtain ⟨leading, last, hsegments, hwell, rfl⟩ := parse?_eq_some hbody h
  have hplain : ∀ w ∈ leading ++ [last], ∀ c ∈ w, startsQuery c = false := by
    intro w hw c hc
    by_cases hslash : c = '/'
    · rw [hslash]
      rfl
    · exact hquery c ((mem_segmentTexts_iff hslash).1 ⟨w, hsegments ▸ hw, hc⟩)
  refine .ofTexts ⟨by simp, hwell.nil_not_mem, fun w hw => ?_, hplain⟩
  rcases List.mem_append.1 hw with hw | hw
  · exact hwell.leading_slash w hw
  · have hlast := hwell.last_slash
    rw [splitQuery_of_no_query (hplain last (by simp))] at hlast
    rwa [List.mem_singleton.1 hw]

end PathPattern

namespace Pattern

theorem isPlain_path {raw : Text} {p : Pattern} (h : parse raw = .ok p)
    (hquery : p.matchesQuery = false) : p.path.IsPlain := by
  obtain ⟨_, _, _, _, _, hread⟩ := parse_eq_ok_iff.1 h
  obtain ⟨_, _, _, hpath⟩ := parseHierarchy_eq_ok_iff.1 hread
  rcases parsePath?_cases hpath with ⟨_, hanywhere, _⟩ | ⟨body, _, _, hparse, hany⟩
  · rw [hanywhere]
    exact .anywhere
  · rw [hquery, eq_comm, List.any_eq_false] at hany
    exact PathPattern.isPlain_of_parse? hparse fun c hc => by simpa using hany c (by simp [hc])

/-- Of two patterns without a query, the one whose paths are all accepted by the other never has
the lower score, nor the lower specificity if both name the same hosts. -/
theorem specificity_le_of_covers {rawP rawQ : Text} {p q : Pattern} (hp : parse rawP = .ok p)
    (hq : parse rawQ = .ok q) (hpQuery : p.matchesQuery = false) (hqQuery : q.matchesQuery = false)
    (hcovers : q.path.Covers p.path) :
    q.path.score ≤ p.path.score ∧
      (p.domain = q.domain → p.subdomainsOnly = q.subdomainsOnly →
        q.specificity ≤ p.specificity) := by
  have hscore := PathPattern.score_le_of_covers (isPlain_path hp hpQuery) (isPlain_path hq hqQuery)
    hcovers
  refine ⟨hscore, fun hdomain hsubdomains => ?_⟩
  rw [specificity, specificity, domainScore, domainScore, labelCount, labelCount, hdomain,
    hsubdomains]
  exact Nat.add_le_add_left hscore _

theorem specificity_le_of_covers_member :
    let p : Pattern := ⟨none, false, "a.com".toList,
      .segmented [.literal ['r'], .literal "rust".toList, .any, .literal "top".toList], false⟩
    let q : Pattern := ⟨none, false, "a.com".toList, .under "/r/rust".toList, false⟩
    parse "a.com/r/rust/*/top".toList = .ok p ∧ parse "a.com/r/rust/*".toList = .ok q ∧
      q.path.Covers p.path ∧ q.specificity ≤ p.specificity := by
  intro p q
  have hp : parse "a.com/r/rust/*/top".toList = .ok p := by rfl
  have hq : parse "a.com/r/rust/*".toList = .ok q := by rfl
  have hcovers : q.path.Covers p.path := by
    intro path hpath haccepts
    obtain ⟨body, rfl, hbody⟩ := hpath.exists_eq
    have hsegments : PlainSegments [['r'], "rust".toList] :=
      ⟨by simp, by simp, by simp, by simp [startsQuery]⟩
    have hfits : Fits ([['r'], "rust".toList].map .literal ++ [.any, .literal "top".toList])
        (pathSegments ('/' :: body)) := (segmentsMatch_iff _ _).1 haccepts
    obtain ⟨more, hmore, _⟩ := Fits.literals_append_iff.1 hfits
    refine (under_accepts_iff_fits hsegments hbody).2 (Fits.literals_rest_iff.2 ⟨more, hmore.symm⟩)
  exact ⟨hp, hq, hcovers, (specificity_le_of_covers hp hq rfl rfl hcovers).2 rfl rfl⟩

end Pattern

end UrlPolicy
