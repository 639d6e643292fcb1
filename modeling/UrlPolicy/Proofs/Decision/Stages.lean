import UrlPolicy.Proofs.Decision.Verdict

/-!
When an address is blocked, and which stage of the decision settled it, told from the matching
rules and occurring keywords as a whole. Main statement: deciding blocks exactly the addresses
that `Policy.Blocks` describes, names the first stage that settles the matter, and asks once
whether a host is allowed for a time.
-/

set_option autoImplicit false

namespace UrlPolicy

def Source.stage : Source → Nat
  | .internalPage => 0
  | .temporaryAllow => 1
  | .allowKeyword => 2
  | .allowRule => 3
  | .denyRule => 4
  | .denyKeyword => 5
  | .notOnAllowList => 6
  | .noMatch => 7

theorem Source.stage_injective {s t : Source} (h : s.stage = t.stage) : s = t := by
  cases s <;> cases t <;> simp_all [stage]

def Keyword.AnyOccurs (keywords : List Keyword) (a : Address) : Prop :=
  ∃ k ∈ keywords, k.occursIn a = true

namespace Ruleset

def AnyAccepts (rs : Ruleset) (side : Side) (a : Address) : Prop :=
  ∃ r ∈ rs.list side, r.accepts a = true

/-- Some deny rule matches, and the most specific ones that do are more specific than every allow
rule that matches. -/
def DenyPrevails (rs : Ruleset) (a : Address) : Prop :=
  ∃ d ∈ rs.deny, d.accepts a = true ∧
    (∀ s ∈ rs.deny, s.accepts a = true → s.specificity ≤ d.specificity) ∧
    ∀ r ∈ rs.allow, r.accepts a = true → r.specificity < d.specificity

def AllowPrevails (rs : Ruleset) (a : Address) : Prop :=
  ∃ r ∈ rs.allow, r.accepts a = true ∧
    ∀ d ∈ rs.deny, d.accepts a = true → d.specificity ≤ r.specificity

theorem winner_spec {rs : Ruleset} {side : Side} {a : Address} {r : Rule}
    (h : rs.winner side a = some r) :
    r ∈ rs.list side ∧ r.accepts a = true ∧
      ∀ s ∈ rs.list side, s.accepts a = true → s.specificity ≤ r.specificity := by
  have hbest := isBest_of_winner h
  have hr := mem_accepting.1 hbest.mem
  exact ⟨hr.1, hr.2, fun s hs hsa => hbest.specificity_le (mem_accepting.2 ⟨hs, hsa⟩)⟩

theorem anyAccepts_iff {rs : Ruleset} {side : Side} {a : Address} :
    rs.AnyAccepts side a ↔ ∃ r, rs.winner side a = some r := by
  constructor
  · rintro ⟨r, hr, hra⟩
    rcases rs.winner_cases side a with ⟨_, hn⟩ | ⟨b, hb, _⟩
    · have hmem : r ∈ rs.accepting side a := mem_accepting.2 ⟨hr, hra⟩
      rw [hn] at hmem
      cases hmem
    · exact ⟨b, hb⟩
  · rintro ⟨r, hr⟩
    exact ⟨r, (winner_spec hr).1, (winner_spec hr).2.1⟩

theorem denyPrevails_iff {rs : Ruleset} {a : Address} :
    rs.DenyPrevails a ↔ ∃ d, rs.winner .deny a = some d ∧
      ∀ r, rs.winner .allow a = some r → r.specificity < d.specificity := by
  constructor
  · rintro ⟨d, hd, hda, _, hall⟩
    have hany : rs.AnyAccepts .deny a := ⟨d, hd, hda⟩
    obtain ⟨b, hb⟩ := anyAccepts_iff.1 hany
    refine ⟨b, hb, fun r hr => ?_⟩
    have hrd := hall r (winner_spec hr).1 (winner_spec hr).2.1
    have hdb := (winner_spec hb).2.2 d hd hda
    omega
  · rintro ⟨d, hd, hall⟩
    obtain ⟨hmem, hda, hmax⟩ := winner_spec hd
    refine ⟨d, hmem, hda, hmax, fun r hr hra => ?_⟩
    have hany : rs.AnyAccepts .allow a := ⟨r, hr, hra⟩
    obtain ⟨b, hb⟩ := anyAccepts_iff.1 hany
    exact Nat.lt_of_le_of_lt ((winner_spec hb).2.2 r hr hra) (hall b hb)

theorem allowPrevails_iff {rs : Ruleset} {a : Address} :
    rs.AllowPrevails a ↔ ∃ r, rs.winner .allow a = some r ∧
      ∀ d, rs.winner .deny a = some d → d.specificity ≤ r.specificity := by
  constructor
  · rintro ⟨r, hr, hra, hall⟩
    have hany : rs.AnyAccepts .allow a := ⟨r, hr, hra⟩
    obtain ⟨b, hb⟩ := anyAccepts_iff.1 hany
    refine ⟨b, hb, fun d hd => ?_⟩
    have hdr := hall d (winner_spec hd).1 (winner_spec hd).2.1
    have hrb := (winner_spec hb).2.2 r hr hra
    omega
  · rintro ⟨r, hr, hall⟩
    obtain ⟨hmem, hra, _⟩ := winner_spec hr
    refine ⟨r, hmem, hra, fun d hd hda => ?_⟩
    have hany : rs.AnyAccepts .deny a := ⟨d, hd, hda⟩
    obtain ⟨b, hb⟩ := anyAccepts_iff.1 hany
    exact Nat.le_trans ((winner_spec hb).2.2 d hd hda) (hall b hb)

end Ruleset

theorem Keyword.anyOccurs_iff {keywords : List Keyword} {a : Address} :
    AnyOccurs keywords a ↔ ∃ k, first? keywords a = some k := by
  constructor
  · rintro ⟨k, hk, ho⟩
    cases hf : first? keywords a with
    | none => rw [first?_eq_none_iff.1 hf k hk] at ho; cases ho
    | some b => exact ⟨b, rfl⟩
  · rintro ⟨k, hk⟩
    exact ⟨k, (occursIn_of_first? hk).1, (occursIn_of_first? hk).2⟩

namespace Policy

def ModeBlocks (p : Policy) (a : Address) : Prop :=
  match p.mode with
  | .whitelist => ¬ p.rules.AnyAccepts .allow a
  | .blacklist => p.rules.AnyAccepts .deny a ∨ Keyword.AnyOccurs p.denyKeywords a
  | .combined =>
    p.rules.DenyPrevails a ∨
      ¬ p.rules.AnyAccepts .allow a ∧ ¬ p.rules.AnyAccepts .deny a ∧
        Keyword.AnyOccurs p.denyKeywords a

/-- The addresses that are blocked; `exempt` tells whether the host is allowed for a time. -/
def Blocks (p : Policy) (a : Address) (exempt : Bool) : Prop :=
  a.isInternal = false ∧ exempt = false ∧ ¬ Keyword.AnyOccurs p.allowKeywords a ∧ p.ModeBlocks a

/-- What lets a stage settle the matter, unless an earlier one does. -/
def Settles (p : Policy) (a : Address) (exempt : Bool) : Source → Prop
  | .internalPage => a.isInternal = true
  | .temporaryAllow => exempt = true
  | .allowKeyword => Keyword.AnyOccurs p.allowKeywords a
  | .allowRule =>
    match p.mode with
    | .whitelist => p.rules.AnyAccepts .allow a
    | .blacklist => False
    | .combined => p.rules.AllowPrevails a
  | .denyRule =>
    match p.mode with
    | .whitelist => False
    | .blacklist => p.rules.AnyAccepts .deny a
    | .combined => p.rules.DenyPrevails a
  | .denyKeyword => p.mode ≠ .whitelist ∧ Keyword.AnyOccurs p.denyKeywords a
  | .notOnAllowList => p.mode = .whitelist
  | .noMatch => p.mode ≠ .whitelist

def SettlesFirst (p : Policy) (a : Address) (exempt : Bool) (s : Source) : Prop :=
  p.Settles a exempt s ∧ ∀ t : Source, t.stage < s.stage → ¬ p.Settles a exempt t

theorem SettlesFirst.unique {p : Policy} {a : Address} {exempt : Bool} {s t : Source}
    (hs : p.SettlesFirst a exempt s) (ht : p.SettlesFirst a exempt t) : s = t := by
  have hst : ¬ s.stage < t.stage := fun h => ht.2 s h hs.1
  have hts : ¬ t.stage < s.stage := fun h => hs.2 t h ht.1
  exact Source.stage_injective (by omega)

/-- The stage settles the matter, and of the stages behind the allow keywords no earlier one
does. -/
def SettlesByMode (p : Policy) (a : Address) (exempt : Bool) (s : Source) : Prop :=
  p.Settles a exempt s ∧ ∀ t : Source, 2 < t.stage → t.stage < s.stage → ¬ p.Settles a exempt t

section

variable {p : Policy} {a : Address} {exempt : Bool}

theorem settlesByMode_allowRule (h : p.Settles a exempt .allowRule) :
    p.SettlesByMode a exempt .allowRule :=
  ⟨h, fun _ h1 h2 => absurd h2 (Nat.not_lt.2 h1)⟩

theorem settlesByMode_denyRule (hallow : ¬ p.Settles a exempt .allowRule)
    (h : p.Settles a exempt .denyRule) : p.SettlesByMode a exempt .denyRule := by
  refine ⟨h, fun t h1 h2 => ?_⟩
  cases t with
  | allowRule => exact hallow
  | _ => simp only [Source.stage] at h1 h2; omega

theorem settlesByMode_denyKeyword (hallow : ¬ p.Settles a exempt .allowRule)
    (hdeny : ¬ p.Settles a exempt .denyRule) (h : p.Settles a exempt .denyKeyword) :
    p.SettlesByMode a exempt .denyKeyword := by
  refine ⟨h, fun t h1 h2 => ?_⟩
  cases t with
  | allowRule => exact hallow
  | denyRule => exact hdeny
  | _ => simp only [Source.stage] at h1 h2; omega

theorem settlesByMode_notOnAllowList (hallow : ¬ p.Settles a exempt .allowRule)
    (h : p.Settles a exempt .notOnAllowList) : p.SettlesByMode a exempt .notOnAllowList := by
  have hm : p.mode = .whitelist := h
  have hdeny : ¬ p.Settles a exempt .denyRule := by simp [Settles, hm]
  have hkeyword : ¬ p.Settles a exempt .denyKeyword := fun hk => hk.1 hm
  refine ⟨h, fun t h1 h2 => ?_⟩
  cases t with
  | allowRule => exact hallow
  | denyRule => exact hdeny
  | denyKeyword => exact hkeyword
  | _ => simp only [Source.stage] at h1 h2; omega

theorem settlesByMode_noMatch (hallow : ¬ p.Settles a exempt .allowRule)
    (hdeny : ¬ p.Settles a exempt .denyRule) (hkeyword : ¬ p.Settles a exempt .denyKeyword)
    (h : p.Settles a exempt .noMatch) : p.SettlesByMode a exempt .noMatch := by
  refine ⟨h, fun t h1 h2 => ?_⟩
  cases t with
  | allowRule => exact hallow
  | denyRule => exact hdeny
  | denyKeyword => exact hkeyword
  | notOnAllowList => exact h
  | _ => simp only [Source.stage] at h1 h2; omega

theorem keywordVerdict_settles (hm : p.mode ≠ .whitelist)
    (hallow : ¬ p.Settles a exempt .allowRule) (hdeny : ¬ p.Settles a exempt .denyRule) :
    p.SettlesByMode a exempt (p.keywordVerdict a).source := by
  cases hk : Keyword.first? p.denyKeywords a with
  | none =>
    have hnone : ¬ Keyword.AnyOccurs p.denyKeywords a := by simp [Keyword.anyOccurs_iff, hk]
    rw [keywordVerdict, hk]
    exact settlesByMode_noMatch hallow hdeny (fun h => hnone h.2) hm
  | some k =>
    rw [keywordVerdict, hk]
    exact settlesByMode_denyKeyword hallow hdeny ⟨hm, Keyword.anyOccurs_iff.2 ⟨k, hk⟩⟩

theorem ruleVerdict_settles_of_whitelist (hm : p.mode = .whitelist) :
    p.SettlesByMode a exempt (p.ruleVerdict a).source := by
  have hsettles : p.Settles a exempt .allowRule ↔ ∃ r, p.rules.winner .allow a = some r := by
    simp only [Settles, hm, Ruleset.anyAccepts_iff]
  cases hallow : p.rules.winner .allow a with
  | none =>
    simp only [ruleVerdict, hm, hallow]
    exact settlesByMode_notOnAllowList (by simp [hsettles, hallow]) hm
  | some r =>
    simp only [ruleVerdict, hm, hallow]
    exact settlesByMode_allowRule (hsettles.2 ⟨r, hallow⟩)

theorem ruleVerdict_settles_of_blacklist (hm : p.mode = .blacklist) :
    p.SettlesByMode a exempt (p.ruleVerdict a).source := by
  have hna : ¬ p.Settles a exempt .allowRule := by simp [Settles, hm]
  have hsettles : p.Settles a exempt .denyRule ↔ ∃ d, p.rules.winner .deny a = some d := by
    simp only [Settles, hm, Ruleset.anyAccepts_iff]
  cases hdeny : p.rules.winner .deny a with
  | none =>
    simp only [ruleVerdict, hm, hdeny]
    exact keywordVerdict_settles (by simp [hm]) hna (by simp [hsettles, hdeny])
  | some d =>
    simp only [ruleVerdict, hm, hdeny]
    exact settlesByMode_denyRule hna (hsettles.2 ⟨d, hdeny⟩)

theorem ruleVerdict_settles_of_combined (hm : p.mode = .combined) :
    p.SettlesByMode a exempt (p.ruleVerdict a).source := by
  have hA : p.Settles a exempt .allowRule ↔ p.rules.AllowPrevails a := by
    simp only [Settles, hm]
  have hD : p.Settles a exempt .denyRule ↔ p.rules.DenyPrevails a := by
    simp only [Settles, hm]
  rw [Ruleset.allowPrevails_iff] at hA
  rw [Ruleset.denyPrevails_iff] at hD
  cases hallow : p.rules.winner .allow a with
  | none =>
    have hna : ¬ p.Settles a exempt .allowRule := by simp [hA, hallow]
    cases hdeny : p.rules.winner .deny a with
    | none =>
      simp only [ruleVerdict, hm, hallow, hdeny]
      exact keywordVerdict_settles (by simp [hm]) hna (by simp [hD, hdeny])
    | some d =>
      simp only [ruleVerdict, hm, hallow, hdeny]
      exact settlesByMode_denyRule hna (by simp [hD, hallow, hdeny])
  | some r =>
    cases hdeny : p.rules.winner .deny a with
    | none =>
      simp only [ruleVerdict, hm, hallow, hdeny]
      exact settlesByMode_allowRule (by simp [hA, hallow, hdeny])
    | some d =>
      -- both lists have a winner, and the allow rule wins a tie
      simp only [ruleVerdict, hm, hallow, hdeny, settle]
      split
      · next hle => exact settlesByMode_allowRule (by simpa [hA, hallow, hdeny] using hle)
      · next hlt =>
        refine settlesByMode_denyRule ?_ ?_
        · simpa [hA, hallow, hdeny] using hlt
        · simpa [hD, hallow, hdeny] using hlt

end

theorem ruleVerdict_settles (p : Policy) (a : Address) (exempt : Bool) :
    p.SettlesByMode a exempt (p.ruleVerdict a).source := by
  cases hm : p.mode with
  | whitelist => exact ruleVerdict_settles_of_whitelist hm
  | blacklist => exact ruleVerdict_settles_of_blacklist hm
  | combined => exact ruleVerdict_settles_of_combined hm

theorem source_settlesFirst (p : Policy) (url : Text) (isExempt : Text → Bool) (traced : Bool) :
    p.SettlesFirst (Address.read url) (isExempt (Address.read url).host)
      (p.decide url isExempt traced).verdict.source := by
  rw [decide_verdict]
  split
  · next hi => exact ⟨hi, fun t ht => absurd ht (Nat.not_lt_zero _)⟩
  · next hi =>
    split
    · next he =>
      refine ⟨he, fun t ht => ?_⟩
      cases t with
      | internalPage => exact hi
      | _ => simp only [Verdict.source, Source.stage] at ht; omega
    · next he =>
      rw [verdict]
      cases hk : Keyword.first? p.allowKeywords (Address.read url) with
      | some k =>
        refine ⟨Keyword.anyOccurs_iff.2 ⟨k, hk⟩, fun t ht => ?_⟩
        cases t with
        | internalPage => exact hi
        | temporaryAllow => exact he
        | _ => simp only [Verdict.source, Source.stage] at ht; omega
      | none =>
        have hn : ¬ Keyword.AnyOccurs p.allowKeywords (Address.read url) := by
          simp [Keyword.anyOccurs_iff, hk]
        obtain ⟨hs, hbefore⟩ := ruleVerdict_settles p (Address.read url)
          (isExempt (Address.read url).host)
        refine ⟨hs, fun t ht => ?_⟩
        cases t with
        | internalPage => exact hi
        | temporaryAllow => exact he
        | allowKeyword => exact hn
        | _ => exact hbefore _ (by simp only [Source.stage]; omega) ht

theorem keywordVerdict_blocked_iff {p : Policy} {a : Address} :
    (p.keywordVerdict a).blocked = true ↔ Keyword.AnyOccurs p.denyKeywords a := by
  rw [keywordVerdict, Keyword.anyOccurs_iff]
  cases Keyword.first? p.denyKeywords a <;> simp [Verdict.blocked]

theorem ruleVerdict_blocked_iff (p : Policy) (a : Address) :
    (p.ruleVerdict a).blocked = true ↔ p.ModeBlocks a := by
  cases hm : p.mode with
  | whitelist =>
    simp only [ModeBlocks, ruleVerdict, hm, Ruleset.anyAccepts_iff]
    cases p.rules.winner .allow a <;> simp [Verdict.blocked]
  | blacklist =>
    simp only [ModeBlocks, ruleVerdict, hm, Ruleset.anyAccepts_iff]
    cases p.rules.winner .deny a with
    | none => simp [keywordVerdict_blocked_iff]
    | some d => simp [Verdict.blocked]
  | combined =>
    simp only [ModeBlocks, ruleVerdict, hm, Ruleset.anyAccepts_iff, Ruleset.denyPrevails_iff]
    cases p.rules.winner .allow a with
    | none =>
      cases p.rules.winner .deny a with
      | none => simp [keywordVerdict_blocked_iff]
      | some d => simp [Verdict.blocked]
    | some r =>
      cases p.rules.winner .deny a with
      | none => simp [Verdict.blocked]
      | some d =>
        by_cases hle : d.specificity ≤ r.specificity
        · simp [settle, hle, Verdict.blocked]
        · simp [settle, hle, Verdict.blocked]
          omega

theorem blocked_iff (p : Policy) (url : Text) (isExempt : Text → Bool) (traced : Bool) :
    (p.decide url isExempt traced).verdict.blocked = true ↔
      p.Blocks (Address.read url) (isExempt (Address.read url).host) := by
  rw [decide_verdict, Blocks]
  by_cases hi : (Address.read url).isInternal
  · simp [hi, Verdict.blocked]
  · by_cases he : isExempt (Address.read url).host
    · simp [hi, he, Verdict.blocked]
    · simp only [hi, he, verdict, Keyword.anyOccurs_iff, Bool.false_eq_true, if_false]
      cases Keyword.first? p.allowKeywords (Address.read url) with
      | none => simp [ruleVerdict_blocked_iff]
      | some k => simp [Verdict.blocked]

/-- A predicate that notes each text it is asked about. -/
def noting (isExempt : Text → Bool) (host : Text) : StateM (List Text) Bool := do
  modify (· ++ [host])
  return isExempt host

/-- Deciding blocks what the policy blocks, names the first stage that settles the matter, and
asks about the host of each address but the pages of the browser, once and about nothing else. -/
theorem decide_correct (p : Policy) (url : Text) (isExempt : Text → Bool)
    (traced : Bool) :
    let a := Address.read url
    let d := p.decide url isExempt traced
    (d.verdict.blocked = true ↔ p.Blocks a (isExempt a.host)) ∧
      (∀ s, d.verdict.source = s ↔ p.SettlesFirst a (isExempt a.host) s) ∧
      ∀ asked, (p.decideM url (noting isExempt) traced).run asked =
        (d, asked ++ if a.isInternal then [] else [a.host]) := by
  refine ⟨p.blocked_iff url isExempt traced, fun s => ?_, fun asked => ?_⟩
  · have hfirst := p.source_settlesFirst url isExempt traced
    constructor
    · rintro rfl
      exact hfirst
    · exact hfirst.unique
  · rw [decideM_eq]
    by_cases hi : (Address.read url).isInternal
    · have hd : p.decide url (fun _ => false) traced = p.decide url isExempt traced := by
        simp only [decide, decideM, hi, if_true]
      simp only [hi, if_true, hd, List.append_nil]
      rfl
    · rw [if_neg hi, if_neg hi]
      rfl

end Policy

end UrlPolicy
