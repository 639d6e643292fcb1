import UrlPolicy.Proofs.Decision.Stages
import UrlPolicy.Proofs.Decision.Thinning

/-!
Edits that only allow more: entries are added to the lists that allow, and taken from the lists
that deny. Main statement: such an edit blocks no address that was not blocked, also when the
rules are compiled from their texts.
-/

set_option autoImplicit false

namespace UrlPolicy

/-- `rs'` is `rs` with rules added to the allow list and rules taken from the deny list. -/
structure Ruleset.Relaxes (rs rs' : Ruleset) : Prop where
  allow : rs.allow.Sublist rs'.allow
  deny : rs'.deny.Sublist rs.deny

/-- `q` is `p` with entries added to the lists that allow and taken from the lists that deny. -/
structure Policy.Relaxes (p q : Policy) : Prop where
  mode : q.mode = p.mode
  rules : p.rules.Relaxes q.rules
  allowKeywords : p.allowKeywords.Sublist q.allowKeywords
  denyKeywords : q.denyKeywords.Sublist p.denyKeywords

theorem Keyword.AnyOccurs.mono {keywords keywords' : List Keyword} {a : Address}
    (h : keywords.Sublist keywords') (hany : AnyOccurs keywords a) : AnyOccurs keywords' a := by
  obtain ⟨k, hk, hoccurs⟩ := hany
  exact ⟨k, h.subset hk, hoccurs⟩

namespace Ruleset

variable {rs rs' : Ruleset} {side : Side} {a : Address}

theorem AnyAccepts.mono (h : (rs.list side).Sublist (rs'.list side))
    (hany : rs.AnyAccepts side a) : rs'.AnyAccepts side a := by
  obtain ⟨r, hr, haccepts⟩ := hany
  exact ⟨r, h.subset hr, haccepts⟩

/-- One deny rule above every matching allow rule is enough: the best one is above them, too. -/
theorem denyPrevails_of_exceeds {d : Rule} (hd : d ∈ rs.deny) (hda : d.accepts a = true)
    (h : ∀ r ∈ rs.allow, r.accepts a = true → r.specificity < d.specificity) :
    rs.DenyPrevails a := by
  obtain ⟨b, hb⟩ := anyAccepts_iff.1 (⟨d, hd, hda⟩ : rs.AnyAccepts .deny a)
  obtain ⟨hmem, hba, hmax⟩ := winner_spec hb
  refine ⟨b, hmem, hba, hmax, fun r hr hra => ?_⟩
  exact Nat.lt_of_lt_of_le (h r hr hra) (hmax d hd hda)

theorem denyPrevails_of_no_allow (hdeny : rs.AnyAccepts .deny a)
    (hallow : ¬ rs.AnyAccepts .allow a) : rs.DenyPrevails a := by
  obtain ⟨d, hd, hda⟩ := hdeny
  exact denyPrevails_of_exceeds hd hda fun r hr hra => absurd ⟨r, hr, hra⟩ hallow

theorem DenyPrevails.anti (h : rs.Relaxes rs') (hdeny : rs'.DenyPrevails a) :
    rs.DenyPrevails a := by
  obtain ⟨d, hd, hda, _, hexceeds⟩ := hdeny
  exact denyPrevails_of_exceeds (h.deny.subset hd) hda
    fun r hr hra => hexceeds r (h.allow.subset hr) hra

end Ruleset

namespace Policy

variable {p q : Policy}

theorem ModeBlocks.anti {a : Address} (h : p.Relaxes q) (hq : q.ModeBlocks a) :
    p.ModeBlocks a := by
  have hallow : p.rules.AnyAccepts .allow a → q.rules.AnyAccepts .allow a :=
    Ruleset.AnyAccepts.mono h.rules.allow
  have hdeny : q.rules.AnyAccepts .deny a → p.rules.AnyAccepts .deny a :=
    Ruleset.AnyAccepts.mono h.rules.deny
  have hkeyword : Keyword.AnyOccurs q.denyKeywords a → Keyword.AnyOccurs p.denyKeywords a :=
    Keyword.AnyOccurs.mono h.denyKeywords
  rw [ModeBlocks, h.mode] at hq
  rw [ModeBlocks]
  cases hm : p.mode with
  | whitelist =>
    simp only [hm] at hq
    exact fun hp => hq (hallow hp)
  | blacklist =>
    simp only [hm] at hq
    exact hq.imp hdeny hkeyword
  | combined =>
    simp only [hm] at hq
    rcases hq with hprevails | ⟨hnoAllow, _, hoccurs⟩
    · exact .inl (hprevails.anti h.rules)
    · -- a deny rule that was taken out may match, and then it blocks in place of the keyword
      have hnoAllow' : ¬ p.rules.AnyAccepts .allow a := fun hp => hnoAllow (hallow hp)
      by_cases hp : p.rules.AnyAccepts .deny a
      · exact .inl (Ruleset.denyPrevails_of_no_allow hp hnoAllow')
      · exact .inr ⟨hnoAllow', hp, hkeyword hoccurs⟩

theorem Blocks.anti {a : Address} {exempt : Bool} (h : p.Relaxes q) (hq : q.Blocks a exempt) :
    p.Blocks a exempt := by
  obtain ⟨hinternal, hexempt, hkeyword, hmode⟩ := hq
  exact ⟨hinternal, hexempt, fun hp => hkeyword (hp.mono h.allowKeywords), hmode.anti h⟩

theorem blocked_of_relaxes (h : p.Relaxes q) (url : Text) (isExempt : Text → Bool) (traced : Bool)
    (hq : (q.decide url isExempt traced).verdict.blocked = true) :
    (p.decide url isExempt traced).verdict.blocked = true := by
  rw [blocked_iff] at hq ⊢
  exact hq.anti h

end Policy

theorem ofEntries_relaxes {allow allow' deny deny' : List Text} (hallow : allow.Sublist allow')
    (hdeny : deny'.Sublist deny) :
    (Ruleset.ofEntries allow deny).Relaxes (.ofEntries allow' deny') :=
  ⟨hallow.map _, hdeny.map _⟩

theorem decide_compile_verdict (allow deny : List Text) (allowKeywords denyKeywords : List Keyword)
    (mode : Mode) (url : Text) (isExempt : Text → Bool) (traced : Bool) :
    ((⟨(compile allow deny).rules, allowKeywords, denyKeywords, mode⟩ : Policy).decide
        url isExempt traced).verdict =
      ((⟨.ofEntries allow deny, allowKeywords, denyKeywords, mode⟩ : Policy).decide
        url isExempt traced).verdict := by
  rw [Policy.decide_verdict, Policy.decide_verdict, Policy.verdict_congr fun side =>
    Ruleset.winner_thinned (compile_thinned allow deny side)]

/-- Adding to the lists that allow and taking from the lists that deny, anywhere and in any
combination, never blocks an address that was not blocked; the opposite edits never free one that
was. The same holds of rules compiled from edited lists of texts. -/
theorem blocked_monotone {rs rs' : Ruleset} (hrules : rs.Relaxes rs')
    {allow allow' deny deny' : List Text} (hallow : allow.Sublist allow')
    (hdeny : deny'.Sublist deny) {allowKeywords allowKeywords' denyKeywords denyKeywords' :
      List Keyword} (hallowKeywords : allowKeywords.Sublist allowKeywords')
    (hdenyKeywords : denyKeywords'.Sublist denyKeywords) (mode : Mode) (url : Text)
    (isExempt : Text → Bool) (traced : Bool) :
    let blocked := fun rules : Ruleset =>
      ((⟨rules, allowKeywords, denyKeywords, mode⟩ : Policy).decide
        url isExempt traced).verdict.blocked
    let blocked' := fun rules : Ruleset =>
      ((⟨rules, allowKeywords', denyKeywords', mode⟩ : Policy).decide
        url isExempt traced).verdict.blocked
    (blocked rs = false → blocked' rs' = false) ∧
      (blocked' rs' = true → blocked rs = true) ∧
      (blocked (compile allow deny).rules = false →
        blocked' (compile allow' deny').rules = false) ∧
      (blocked' (compile allow' deny').rules = true →
        blocked (compile allow deny).rules = true) := by
  have hrelaxes : ∀ {r r' : Ruleset}, r.Relaxes r' →
      (⟨r, allowKeywords, denyKeywords, mode⟩ : Policy).Relaxes
        ⟨r', allowKeywords', denyKeywords', mode⟩ :=
    fun h => ⟨rfl, h, hallowKeywords, hdenyKeywords⟩
  have hindex := Policy.blocked_of_relaxes (hrelaxes hrules) url isExempt traced
  have htexts := Policy.blocked_of_relaxes (hrelaxes (ofEntries_relaxes hallow hdeny)) url
    isExempt traced
  rw [← decide_compile_verdict, ← decide_compile_verdict] at htexts
  have hnot : ∀ {b c : Bool}, (c = true → b = true) → b = false → c = false := by decide
  exact ⟨hnot hindex, hindex, hnot htexts, htexts⟩

/-- Taking out the deny rule that an allow rule had set aside does not bring the deny keyword
behind it into play. -/
theorem blocked_monotone_overridden :
    let allow := ["a.com/x".toList]
    let allow' := ["a.com/*".toList, "a.com/x".toList, "b.org".toList]
    let deny := ["a.com".toList, "b.org/x".toList]
    let deny' := ["b.org/x".toList]
    let keywords : List Keyword := [⟨['y'], ['y']⟩, ⟨['x'], ['x']⟩]
    let blocked := fun (rules : Ruleset) (allowKeywords denyKeywords : List Keyword) =>
      ((⟨rules, allowKeywords, denyKeywords, .combined⟩ : Policy).decide
        "http://a.com/x".toList (fun _ => false) false).verdict.blocked
    (Ruleset.ofEntries allow deny).Relaxes (.ofEntries allow' deny') ∧
      allow.Sublist allow' ∧ deny'.Sublist deny ∧ keywords.tail.Sublist keywords ∧
      blocked (.ofEntries allow deny) [] keywords = false ∧
      blocked (.ofEntries allow' deny') [] keywords.tail = false ∧
      blocked (compile allow deny).rules [] keywords = false ∧
      blocked (compile allow' deny').rules [] keywords.tail = false := by
  intro allow allow' deny deny' keywords blocked
  have hallow : allow.Sublist allow' := by decide
  have hdeny : deny'.Sublist deny := by decide
  have hrules := ofEntries_relaxes hallow hdeny
  have hkeywords : keywords.tail.Sublist keywords := List.tail_sublist keywords
  have hbefore : blocked (.ofEntries allow deny) [] keywords = false := by decide
  have hcompiled : blocked (compile allow deny).rules [] keywords = false := by decide
  have h := blocked_monotone hrules hallow hdeny (List.Sublist.refl []) hkeywords .combined
    "http://a.com/x".toList (fun _ => false) false
  exact ⟨hrules, hallow, hdeny, hkeywords, hbefore, h.1 hbefore, hcompiled, h.2.2.1 hcompiled⟩

end UrlPolicy
