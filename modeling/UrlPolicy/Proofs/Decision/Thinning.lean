import UrlPolicy.Proofs.Decision.Verdict
import UrlPolicy.Proofs.Rule.Compilation
import UrlPolicy.Proofs.Rule.Thinning

set_option autoImplicit false

namespace UrlPolicy

namespace Policy

theorem verdict_congr {rs rs' : Ruleset} {allowKeywords denyKeywords : List Keyword} {mode : Mode}
    {a : Address} (h : ∀ side, rs'.winner side a = rs.winner side a) :
    (⟨rs', allowKeywords, denyKeywords, mode⟩ : Policy).verdict a =
      (⟨rs, allowKeywords, denyKeywords, mode⟩ : Policy).verdict a := by
  simp only [verdict, ruleVerdict, h]
  rfl

theorem decide_untraced_congr {rs rs' : Ruleset} {allowKeywords denyKeywords : List Keyword}
    {mode : Mode} {url : Text} (isExempt : Text → Bool)
    (h : ∀ side, rs'.winner side (Address.read url) = rs.winner side (Address.read url)) :
    (⟨rs', allowKeywords, denyKeywords, mode⟩ : Policy).decide url isExempt false =
      (⟨rs, allowKeywords, denyKeywords, mode⟩ : Policy).decide url isExempt false := by
  simp only [decide_eq, verdict_congr h, Bool.false_eq_true, if_false]

end Policy

theorem compile_thinned (allow deny : List Text) (side : Side) :
    Thinned Rule.pattern [] ((Ruleset.ofEntries allow deny).list side)
      ((compile allow deny).rules.list side) := by
  rw [list_compile]
  exact dedupAfter_thinned [] _

theorem ofEntries_thinned {allow deny allow' deny' : List Text}
    (hallow : Thinned Pattern.parse? [] allow allow')
    (hdeny : Thinned Pattern.parse? [] deny deny') (side : Side) :
    Thinned Rule.pattern [] ((Ruleset.ofEntries allow deny).list side)
      ((Ruleset.ofEntries allow' deny').list side) := by
  cases side with
  | allow => exact readRules_thinned hallow
  | deny => exact readRules_thinned hdeny

/-- Neither dropping the rules with a repeated pattern nor thinning out the entries beforehand
changes anything about a decision. -/
theorem decide_thinned {allow deny allow' deny' : List Text}
    (hallow : Thinned Pattern.parse? [] allow allow')
    (hdeny : Thinned Pattern.parse? [] deny deny') (allowKeywords denyKeywords : List Keyword)
    (mode : Mode) (url : Text) (isExempt : Text → Bool) :
    let decideOver := fun rules : Ruleset =>
      (⟨rules, allowKeywords, denyKeywords, mode⟩ : Policy).decide url isExempt false
    decideOver (compile allow deny).rules = decideOver (.ofEntries allow deny) ∧
      decideOver (.ofEntries allow' deny') = decideOver (.ofEntries allow deny) := by
  constructor
  · exact Policy.decide_untraced_congr isExempt fun side =>
      Ruleset.winner_thinned (compile_thinned allow deny side)
  · exact Policy.decide_untraced_congr isExempt fun side =>
      Ruleset.winner_thinned (ofEntries_thinned hallow hdeny side)

theorem decide_thinned_spellings :
    let allow := ["a.com/x".toList, "bad..com".toList, "A.com./X/".toList]
    let deny := ["a.com/*".toList, "A.com/**".toList, "http://a.com".toList]
    let decideOver := fun rules : Ruleset =>
      (⟨rules, [], [], .combined⟩ : Policy).decide "a.com/x".toList (fun _ => false) false
    Thinned Pattern.parse? [] allow ["a.com/x".toList] ∧
      Thinned Pattern.parse? [] deny ["a.com/*".toList, "http://a.com".toList] ∧
      decideOver (compile allow deny).rules = decideOver (.ofEntries allow deny) ∧
      decideOver (.ofEntries ["a.com/x".toList] ["a.com/*".toList, "http://a.com".toList]) =
        decideOver (.ofEntries allow deny) := by
  have hallow : Thinned Pattern.parse? []
      ["a.com/x".toList, "bad..com".toList, "A.com./X/".toList] ["a.com/x".toList] := by
    refine .keep (.dropInvalid (by decide) (.dropRepeated
      (p := ⟨none, false, "a.com".toList, .literal "/x".toList, false⟩) ?_ ?_ (.nil _)))
    · decide
    · decide
  have hdeny : Thinned Pattern.parse? []
      ["a.com/*".toList, "A.com/**".toList, "http://a.com".toList]
      ["a.com/*".toList, "http://a.com".toList] := by
    refine .keep (.dropRepeated
      (p := ⟨none, false, "a.com".toList, .belowRoot, false⟩) ?_ ?_ (.keep (.nil _)))
    · decide
    · decide
  exact ⟨hallow, hdeny, decide_thinned hallow hdeny [] [] .combined _ _⟩

end UrlPolicy
