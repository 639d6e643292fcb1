import UrlPolicy.Proofs.Pattern.Parser

set_option autoImplicit false

namespace UrlPolicy.Pattern

open SegmentPattern (starRun)

/-- What is known of the canonical text of a path that was read behind a host. -/
structure PathText (remainder : Text) (path : PathPattern) (matchesQuery : Bool) : Prop where
  rooted : ∀ c ∈ path.text.head?, c = '/'
  mem : ∀ c ∈ path.text, c = '/' ∨ c = '*' ∨ c ∈ remainder
  parse : ∃ q, parsePath? path.text = some (q, matchesQuery) ∧ q.text = path.text ∧
    (q = path ↔ starRun ∉ path.segments)

theorem any_startsQuery_congr {t u : Text}
    (h : ∀ c, c ≠ '/' → c ≠ '*' → (c ∈ t ↔ c ∈ u)) : t.any startsQuery = u.any startsQuery := by
  rw [Bool.eq_iff_iff, List.any_eq_true, List.any_eq_true]
  refine exists_congr fun c => and_congr_left fun hc => h c ?_ ?_
  · rintro rfl
    cases hc
  · rintro rfl
    cases hc

theorem parsePath?_text {remainder : Text} {path : PathPattern} {matchesQuery : Bool}
    (h : parsePath? remainder = some (path, matchesQuery)) :
    PathText remainder path matchesQuery := by
  by_cases hremainder : remainder = []
  · rw [parsePath?, if_pos hremainder] at h
    cases h
    exact ⟨by simp [PathPattern.text], by simp [PathPattern.text],
      .anywhere, rfl, rfl, by simp [PathPattern.segments]⟩
  obtain ⟨body, hrooted, hbody⟩ := rooted_eq remainder
  rw [parsePath?, if_neg hremainder, hrooted] at h
  obtain ⟨path', hpath, heq⟩ := Option.map_eq_some_iff.1 h
  cases heq
  obtain ⟨t, ht⟩ := PathPattern.text_eq_cons hpath
  obtain ⟨q, hq, htext, hiff⟩ := PathPattern.parse?_text hpath
  have hmem : ∀ c, c ≠ '/' → c ≠ '*' → (c ∈ path.text ↔ c ∈ remainder) := fun c hslash hstar => by
    rw [PathPattern.mem_text_iff hpath hslash hstar, hbody c hslash]
  refine ⟨by simp [ht], fun c hc => ?_, q, ?_, htext, hiff⟩
  · by_cases hslash : c = '/'
    · exact .inl hslash
    by_cases hstar : c = '*'
    · exact .inr (.inl hstar)
    · exact .inr (.inr ((hmem c hslash hstar).1 hc))
  · have hself : rooted path.text = path.text := by rw [ht, rooted]
    rw [parsePath?, if_neg (by simp [ht]), hself, hq, any_startsQuery_congr hmem]
    rfl

/-- A pattern whose canonical text starts like a pattern, whatever its path is. -/
structure Printable (p : Pattern) : Prop where
  scheme : ∀ s, p.protocol = some s → isScheme s = true
  domain : IsDomain p.domain
  rooted : ∀ c ∈ p.path.text.head?, c = '/'
  plain : ∀ c ∈ p.text, IsPlain c

namespace Printable

variable {p : Pattern}

theorem text_eq (p : Pattern) : p.text =
    (p.protocol.elim [] (· ++ "://".toList)) ++
      (subdomainMark p.subdomainsOnly ++ p.domain ++ p.path.text) := by
  cases hprotocol : p.protocol <;> simp [text, subdomainMark, hprotocol]

theorem not_mem_hostMarks (h : Printable p) {c : Char}
    (hc : c ∈ subdomainMark p.subdomainsOnly ++ p.domain) : c ∉ hostMarks := by
  have hbracket : '[' ∉ p.domain := by
    intro hmem
    refine not_isPlain_of_mark (by decide) (h.plain '[' ?_)
    rw [text_eq]
    simp [hmem]
  intro hmark
  rcases List.mem_append.1 hc with hc | hc
  · rcases mem_subdomainMark hc with rfl | rfl <;> exact absurd hmark (by decide)
  · exact not_mem_hostMarks_of_isHost h.domain.isHost hbracket c hc hmark

theorem schemeSplit_text (h : Printable p) : SchemeSplit.of p.text =
    schemeSplit p.protocol (subdomainMark p.subdomainsOnly ++ p.domain ++ p.path.text) := by
  rw [text_eq]
  refine schemeSplit_append h.scheme (fun c hc => h.not_mem_hostMarks hc) fun c hc => ?_
  rw [h.rooted c hc]
  rfl

/-- The canonical text is read as the pattern itself but for the path, which is read again. -/
theorem parse_text {path : PathPattern} {matchesQuery : Bool} (h : Printable p)
    (hpath : parsePath? p.path.text = some (path, matchesQuery)) :
    parse p.text = .ok { p with path := path, matchesQuery := matchesQuery } := by
  have hhost : hostOf? (subdomainMark p.subdomainsOnly ++ p.domain) =
      some (subdomainMark p.subdomainsOnly ++ p.domain) := by
    refine (hostOf?_eq_some_iff ?_ ?_).2 ⟨?_, [], by simp, .inl rfl⟩
    all_goals exact fun hmem => h.not_mem_hostMarks hmem (by decide)
  have hne : p.text ≠ [] := by
    rw [text_eq]
    simp [h.domain.ne_nil]
  rw [parse_eq_ok_iff, lower_trim_of_isPlain h.plain]
  refine ⟨hne, h.plain, p.protocol, _, h.schemeSplit_text, ?_⟩
  rw [parseHierarchy_eq_ok_iff, splitAuthority_append
    (fun c hc => endsAuthority_of_not_mem (h.not_mem_hostMarks hc))
    fun c hc => by rw [h.rooted c hc]; rfl]
  exact ⟨rfl, h.domain, ⟨[], .inl rfl, by rw [hhost, List.append_nil]⟩, hpath⟩

end Printable

theorem mem_of_schemeSplit {t rest : Text} {protocol : Option Text}
    (h : SchemeSplit.of t = schemeSplit protocol rest) :
    (∀ s, protocol = some s → isScheme s = true ∧ ∀ c ∈ s, c ∈ t) ∧ ∀ c ∈ rest, c ∈ t := by
  obtain ⟨hscheme, rfl⟩ := eq_of_schemeSplit h
  refine ⟨?_, fun c hc => by simp [hc]⟩
  rintro s rfl
  exact ⟨hscheme s rfl, fun c hc => by simp [hc]⟩

def printedMarks : List Char := [':', '/', '*', '.']

theorem isPlain_of_printed {c : Char} (h : c ∈ printedMarks) : IsPlain c := by
  have hall : printedMarks.all (fun c => decide (IsPlain c)) = true := by decide
  simpa using List.all_eq_true.1 hall c h

theorem printable_of_parse {raw : Text} {p : Pattern} (h : parse raw = .ok p) :
    Printable p ∧ ∃ remainder, PathText remainder p.path p.matchesQuery := by
  obtain ⟨_, hplain, protocol, rest, hsplit, hread⟩ := parse_eq_ok_iff.1 h
  obtain ⟨rfl, hdomain, ⟨dot, _, hhost⟩, hpath⟩ := parseHierarchy_eq_ok_iff.1 hread
  obtain ⟨hscheme, hrest⟩ := mem_of_schemeSplit hsplit
  have htext := parsePath?_text hpath
  have hcut := splitAuthority_fst_append_snd rest
  have hauthority : ∀ c ∈ (splitAuthority rest).1, c ∈ rest := fun c hc => by
    rw [← hcut]
    exact List.mem_append_left _ hc
  have hremainder : ∀ c ∈ (splitAuthority rest).2, c ∈ rest := fun c hc => by
    rw [← hcut]
    exact List.mem_append_right _ hc
  have hno : ∀ c ∈ forbiddenMarks, c ∉ (splitAuthority rest).1 := fun c hmark hc =>
    not_isPlain_of_mark hmark (hplain c (hrest c (hauthority c hc)))
  obtain ⟨_, port, hport, _⟩ :=
    (hostOf?_eq_some_iff (hno '@' (by decide)) (hno '[' (by decide))).1 hhost
  refine ⟨⟨fun s hs => (hscheme s hs).1, hdomain, htext.rooted, fun c hc => ?_⟩, _, htext⟩
  rw [Printable.text_eq, List.mem_append, List.mem_append, List.mem_append] at hc
  rcases hc with hc | (hc | hc) | hc
  · cases hprotocol : p.protocol with
    | none =>
      rw [hprotocol] at hc
      cases hc
    | some s =>
      rw [hprotocol, Option.elim_some, List.mem_append] at hc
      rcases hc with hc | hc
      · exact hplain c ((hscheme s hprotocol).2 c hc)
      · have hmark : c = ':' ∨ c = '/' := by simpa using hc
        rcases hmark with rfl | rfl <;> exact isPlain_of_printed (by decide)
  · rcases mem_subdomainMark hc with rfl | rfl <;> exact isPlain_of_printed (by decide)
  · refine hplain c (hrest c (hauthority c ?_))
    rw [hport]
    simp [hc]
  · rcases htext.mem c hc with rfl | rfl | hc
    · exact isPlain_of_printed (by decide)
    · exact isPlain_of_printed (by decide)
    · exact hplain c (hrest c (hremainder c hc))

/-- The canonical text of a pattern is a pattern with the same canonical text, and the same
pattern in all but the path. It is the very same pattern unless a segment of three or more stars
was read: such a segment is printed as one star. -/
theorem parse_text_eq_iff {raw : Text} {p : Pattern} (h : parse raw = .ok p) :
    (∃ path, parse p.text = .ok { p with path := path } ∧ path.text = p.path.text) ∧
      (parse p.text = .ok p ↔ starRun ∉ p.path.segments) := by
  obtain ⟨hprintable, remainder, hpath⟩ := printable_of_parse h
  obtain ⟨q, hq, htext, hiff⟩ := hpath.parse
  have hparse := hprintable.parse_text hq
  refine ⟨⟨q, hparse, htext⟩, ?_⟩
  rw [hparse, ← hiff]
  constructor
  · intro heq
    rw [← Except.ok.inj heq]
  · intro heq
    rw [heq]

theorem parse_text_eq_normalized :
    let p : Pattern := ⟨some "https".toList, true, "example.com".toList,
      .segmented [.literal "docs".toList, .glob ['v'] [] ['2'], .rest], false⟩
    parse " HTTPS://*.Example.COM.:443/Docs/V**2/*/ ".toList = .ok p ∧ parse p.text = .ok p := by
  intro p
  have hread : parse " HTTPS://*.Example.COM.:443/Docs/V**2/*/ ".toList = .ok p := by rfl
  exact ⟨hread, (parse_text_eq_iff hread).2.2 (by decide)⟩

/-- A run of stars is one segment, but is printed like the wildcard for all pages below the root. -/
theorem parse_text_starRun :
    ∃ p q : Pattern, parse "a.com/***".toList = .ok p ∧ parse p.text = .ok q ∧ q ≠ p := by
  refine ⟨⟨none, false, "a.com".toList, .segmented [starRun], false⟩,
    ⟨none, false, "a.com".toList, .belowRoot, false⟩, ?_, ?_, ?_⟩
  · rfl
  · rfl
  · decide

end UrlPolicy.Pattern
