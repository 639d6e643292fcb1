import UrlPolicy.Proofs.Matching.Outcome
import UrlPolicy.Proofs.Pattern.Canonical
import UrlPolicy.Rule.Basic

/-!
Rules that name a domain and nothing else. Main statement: a domain is matched by the web
addresses of it and of its subdomains, and with `*.` in front of it by those of the subdomains
alone; hosts that only look alike are matched by neither.
-/

set_option autoImplicit false

namespace UrlPolicy

/-- The address names a host, and has no scheme or one of the web. -/
structure Address.IsWeb (a : Address) : Prop where
  isSome_location : a.location.isSome = true
  scheme : a.scheme = none ∨ a.scheme = some "http".toList ∨ a.scheme = some "https".toList

/-- Hosts that start or end like `base`, but are no subdomains of it. -/
inductive IsLookalike (base : Text) : Text → Prop where
  /-- No dot in front of `base`. -/
  | fused {front : Text} (hne : front ≠ []) (hdot : front.getLast? ≠ some '.') :
      IsLookalike base (front ++ base)
  /-- Another domain behind `base`. Neither of the two is the end of the other. -/
  | followed {other : Text} (hne : other ≠ base) (hbelow : ¬ '.' :: base <:+ other)
      (habove : ¬ '.' :: other <:+ base) : IsLookalike base (base ++ '.' :: other)

section

variable {host base : Text}

theorem IsLookalike.ne (h : IsLookalike base host) : host ≠ base := by
  cases h with
  | fused hne _ => simpa using hne
  | followed => simp

theorem IsLookalike.not_isBelow (h : IsLookalike base host) : ¬ IsBelow host base := by
  intro hbelow
  cases h with
  | fused hne hdot =>
    obtain ⟨labels, _, heq⟩ := hbelow
    have hfront := (List.append_cancel_right_eq ..).mp (heq.trans (List.append_cons ..))
    rw [hfront] at hdot
    simp at hdot
  | @followed other hne hother habove =>
    -- of two ends of one text, the shorter is an end of the longer
    rcases List.suffix_or_suffix_of_suffix hbelow.suffix (List.suffix_append base _) with h | h
    · rcases List.suffix_cons_iff.1 h with heq | h
      · exact hne (List.cons.inj heq).2.symm
      · exact hother h
    · rcases List.suffix_cons_iff.1 h with heq | h
      · exact hne (List.cons.inj heq).2
      · exact habove h

end

theorem SchemeKind.of_eq_http_or_https_iff {s : Text} :
    (of s = .http ∨ of s = .https) ↔ s = "http".toList ∨ s = "https".toList := by
  rw [of]
  split_ifs <;> simp_all

theorem Rule.outcome_read_of_parse {raw : Text} {p : Pattern} (h : Pattern.parse raw = .ok p)
    (a : Address) : (Rule.read raw).1.outcome a = p.outcome a := by
  rw [Rule.read, h]
  rfl

theorem Rule.outcome_ne_matched_of_location_eq_none {a : Address} (h : a.location = none)
    (r : Rule) : r.outcome a ≠ .matched := by
  rw [Rule.outcome]
  cases r.pattern with
  | none => simp
  | some p => simp [Pattern.outcome_eq_matched_iff, h]

namespace Pattern

variable {p : Pattern} {a : Address}

theorem acceptsProtocol_iff_of_none (h : p.protocol = none) : p.acceptsProtocol a = true ↔
    a.scheme = none ∨ a.scheme = some "http".toList ∨ a.scheme = some "https".toList := by
  rw [acceptsProtocol, h, Address.kind]
  cases a.scheme with
  | none => simp
  | some s => simpa using SchemeKind.of_eq_http_or_https_iff

theorem outcome_eq_matched_iff_isWeb (hprotocol : p.protocol = none)
    (hpath : p.path = .anywhere) :
    p.outcome a = .matched ↔ a.IsWeb ∧ p.acceptsHost a.host = true := by
  have haccepts : p.acceptsPath a = true := by
    rw [acceptsPath, hpath]
    rfl
  rw [outcome_eq_matched_iff, acceptsProtocol_iff_of_none hprotocol]
  constructor
  · rintro ⟨hlocation, hscheme, hhost, _⟩
    exact ⟨⟨hlocation, hscheme⟩, hhost⟩
  · rintro ⟨⟨hlocation, hscheme⟩, hhost⟩
    exact ⟨hlocation, hscheme, hhost, haccepts⟩

theorem parse_star_dot_domain {raw : Text} (h : parse raw = .ok p) :
    parse ('*' :: '.' :: p.domain) = .ok ⟨none, true, p.domain, .anywhere, false⟩ := by
  obtain ⟨hprintable, _⟩ := printable_of_parse h
  let q : Pattern := ⟨none, true, p.domain, .anywhere, false⟩
  have htext : q.text = '*' :: '.' :: p.domain := by
    simp [q, text, PathPattern.text]
  have hq : Printable q := by
    refine ⟨by simp [q], hprintable.domain, by simp [q, PathPattern.text], fun c hc => ?_⟩
    rw [htext, List.mem_cons, List.mem_cons] at hc
    rcases hc with rfl | rfl | hc
    · exact isPlain_of_printed (by decide)
    · exact isPlain_of_printed (by decide)
    · refine hprintable.plain c ?_
      rw [Printable.text_eq]
      simp [hc]
  have hparse : parse q.text = .ok q := hq.parse_text rfl
  rwa [htext] at hparse

/-- The rule of a domain matches the web addresses of the domain and of its subdomains, and the
rule with `*.` in front of the domain those of the subdomains. Neither matches a lookalike, and
no rule matches an address that names no host. -/
theorem matched_iff_of_domain {raw : Text} {p : Pattern} (h : parse raw = .ok p)
    (hprotocol : p.protocol = none) (hsub : p.subdomainsOnly = false)
    (hpath : p.path = .anywhere) (url : Text) :
    let base := p.domain
    let a := Address.read url
    let whole := (Rule.read raw).1
    let below := (Rule.read ('*' :: '.' :: base)).1
    (whole.outcome a = .matched ↔ a.IsWeb ∧ (a.host = base ∨ IsBelow a.host base)) ∧
      (below.outcome a = .matched ↔
        (a.IsWeb ∧ (a.host = base ∨ IsBelow a.host base)) ∧ a.host ≠ base) ∧
      (a.IsWeb →
        (whole.outcome a = .matched ↔ below.outcome a = .matched ∨ a.host = base)) ∧
      (IsLookalike base a.host → whole.outcome a ≠ .matched ∧ below.outcome a ≠ .matched) ∧
      (a.location = none → ∀ r : Rule, r.outcome a ≠ .matched) := by
  intro base a whole below
  have hwhole : whole.outcome a = .matched ↔ a.IsWeb ∧ (a.host = base ∨ IsBelow a.host base) := by
    rw [Rule.outcome_read_of_parse h, outcome_eq_matched_iff_isWeb hprotocol hpath,
      acceptsHost_iff, hsub]
    simp [base]
  have hbelow : below.outcome a = .matched ↔ a.IsWeb ∧ IsBelow a.host base := by
    rw [Rule.outcome_read_of_parse (parse_star_dot_domain h),
      outcome_eq_matched_iff_isWeb rfl rfl, acceptsHost_iff]
    simp [base]
  refine ⟨hwhole, ?_, fun hweb => ?_, fun hlook => ?_, fun hnone r => ?_⟩
  · rw [hbelow]
    constructor
    · exact fun ⟨hweb, hhost⟩ => ⟨⟨hweb, .inr hhost⟩, hhost.ne⟩
    · exact fun ⟨⟨hweb, hhost⟩, hne⟩ => ⟨hweb, hhost.resolve_left hne⟩
  · rw [hwhole, hbelow, and_iff_right hweb, and_iff_right hweb, or_comm]
  · rw [Ne, hwhole, Ne, hbelow]
    exact ⟨fun hm => hm.2.elim hlook.ne hlook.not_isBelow, fun hm => hlook.not_isBelow hm.2⟩
  · exact r.outcome_ne_matched_of_location_eq_none hnone

theorem matched_iff_of_domain_lookalikes :
    let raw := " Example.COM.:443 ".toList
    let p : Pattern := ⟨none, false, "example.com".toList, .anywhere, false⟩
    let whole := (Rule.read raw).1
    let below := (Rule.read "*.example.com".toList).1
    parse raw = .ok p ∧
      whole.outcome (.read "https://Example.com:8080/x".toList) = .matched ∧
      below.outcome (.read "https://Example.com:8080/x".toList) ≠ .matched ∧
      below.outcome (.read "a.b.example.com".toList) = .matched ∧
      whole.outcome (.read "http://notexample.com/".toList) ≠ .matched ∧
      whole.outcome (.read "http://example.com.evil.org/".toList) ≠ .matched ∧
      whole.outcome (.read "about:example.com".toList) ≠ .matched := by
  intro raw p whole below
  have hread : parse raw = .ok p := by decide +kernel
  have hdomain := matched_iff_of_domain hread rfl rfl rfl
  have hself : (Address.read "https://Example.com:8080/x".toList).host = p.domain := by rfl
  have hfront : (Address.read "http://notexample.com/".toList).host = "not".toList ++ p.domain := by
    rfl
  have hback : (Address.read "http://example.com.evil.org/".toList).host =
      p.domain ++ '.' :: "evil.org".toList := by rfl
  obtain ⟨hwhole, hbelow, _⟩ := hdomain "https://Example.com:8080/x".toList
  refine ⟨hread, hwhole.2 ⟨⟨rfl, .inr (.inr rfl)⟩, .inl hself⟩, fun h => (hbelow.1 h).2 hself,
    ?_, ?_, ?_, ?_⟩
  · obtain ⟨_, hbelow, _⟩ := hdomain "a.b.example.com".toList
    exact hbelow.2 ⟨⟨⟨rfl, .inl rfl⟩, .inr ⟨"a.b".toList, by decide, rfl⟩⟩, by decide +kernel⟩
  · obtain ⟨_, _, _, hlook, _⟩ := hdomain "http://notexample.com/".toList
    refine (hlook ?_).1
    rw [hfront]
    exact .fused (by decide) (by decide)
  · obtain ⟨_, _, _, hlook, _⟩ := hdomain "http://example.com.evil.org/".toList
    refine (hlook ?_).1
    rw [hback]
    exact .followed (by decide) (by decide) (by decide)
  · obtain ⟨_, _, _, _, hnone⟩ := hdomain "about:example.com".toList
    exact hnone rfl _

end Pattern

end UrlPolicy
